import CodeAtlas.Proofs.DeclaredRoles
import CodeAtlas.Proofs.Outlines

/-!
# The guard of structure

Giving roles must leave nodes, kinds, edges and tickets as they are, and a guard compares both
graphs afterwards. Here is what the guard accepts, that giving roles only ever adds roles, and when
the guard agrees with that.
-/

namespace CodeAtlas

open Fallible Table Json

namespace Graph

variable {done nodes : Table Key Json} {taken : Key → Option Json}
variable {g raw : Json}

/-- The guard accepts a graph just if it has the nodes of the raw one with their kinds, the same
edges and as many tickets. -/
lemma Equivalence.violations_eq_nil_iff_of_tabled (hraw : Tabled raw nodes)
    (hg : Tabled g done) : violations raw g = .ok [] ↔ nodes.length = done.length ∧
      (∀ k, Alike ((nodes.get? k).map typeOf) ((done.get? k).map typeOf)) ∧
      (∃ texts texts', edgeTexts raw = .ok texts ∧ edgeTexts g = .ok texts' ∧
        texts ⊆ texts' ∧ texts' ⊆ texts) ∧
      ∃ count, ticketCount raw = .ok count ∧ ticketCount g = .ok count := by
  rw [violations_eq_nil_iff hraw.nodesOf_eq hg.nodesOf_eq hraw.keyed hg.keyed]
  simp only [kindUnder_values hraw.distinct hraw.identified,
    kindUnder_values hg.distinct hg.identified]
  simp only [values, List.length_map]

namespace Enrichment

open CodeAtlas.Graph.Equivalence

lemma document_spec {report : Json} {p : Plan} {roles : Nat}
    (h : document raw report p nodes roles = .ok g) :
    raw.IsObject ∧ (∃ edges, raw.member? "edges" = some edges ∧ g.member? "edges" = some edges) ∧
      g.member? "ambiguities" = some ((raw.member? "ambiguities").getD (.arr [])) := by
  simp only [document, bind_eq_ok, pure_eq_ok, need_eq_ok, getD_eq_ok] at h
  obtain ⟨edges, hedges, tickets, ⟨hraw, rfl⟩, rfl⟩ := h
  exact ⟨hraw, ⟨edges, hedges, rfl⟩, rfl⟩

/-- Every edge of a graph has both its ends and its kind. -/
def EdgesComplete (g : Json) : Prop :=
  ∀ edges items, g.member? "edges" = some edges → edges.elements = .ok items → ∀ e ∈ items,
    (e.member? "source").isSome ∧ (e.member? "target").isSome ∧ (e.member? "type").isSome

lemma EdgesComplete.edgeTexts {edges : Json} {items : List Json} (h : EdgesComplete g)
    (hedges : g.member? "edges" = some edges) (hitems : edges.elements = .ok items) :
    ∃ texts, edgeTexts g = .ok texts := by
  have htext : ∀ e ∈ items, ∃ text, edgeText e = .ok text := by
    intro e he
    obtain ⟨hsource, htarget, htype⟩ := h edges items hedges hitems e he
    obtain ⟨source, hsource⟩ := Option.isSome_iff_exists.1 hsource
    obtain ⟨target, htarget⟩ := Option.isSome_iff_exists.1 htarget
    obtain ⟨type, htype⟩ := Option.isSome_iff_exists.1 htype
    simp only [edgeText, bind_eq_ok, need_eq_ok]
    exact ⟨_, source, hsource, target, htarget, type, htype, rfl⟩
  obtain ⟨texts, htexts⟩ := exists_mapM_of_forall htext
  refine ⟨texts, ?_⟩
  simp only [Equivalence.edgeTexts, bind_eq_ok, getD_eq_ok]
  exact ⟨edges, ⟨isObject_of_member? hedges, by rw [hedges, Option.getD_some]⟩,
    items, hitems, htexts⟩

lemma Planned.keys_perm {p : Plan} (h : Planned nodes taken p) :
    (p.preserved.keys ++ p.fresh.keys).Perm nodes.keys := by
  rw [h.keys_preserved, h.keys_fresh]
  have hnone : (fun k ↦ (taken k).isNone) = fun k ↦ !(taken k).isSome := by
    funext k
    rw [Option.not_isSome]
  rw [hnone]
  exact List.filter_append_perm _ _

/-- A node has kept its structure, and its roles are the old ones followed by others. -/
def OnlyAddsRoles (n m : Json) : Prop :=
  structureOf m = structureOf n ∧
    (m = n ∨ ∃ rs added, rolesOf n = .arr rs ∧ rolesOf m = .arr (rs ++ added))

lemma onlyAddsRoles_giveRoles {t : Topology} {frameworks : List Reading} {n m : Json}
    (h : giveRoles t frameworks n = .ok m) : OnlyAddsRoles n m := by
  obtain ⟨added, happends⟩ := Appends.of_giveRoles h
  refine ⟨happends.structures, ?_⟩
  obtain ⟨-, rfl⟩ | ⟨rs, hrs, hm⟩ := happends.roles
  · exact .inl rfl
  · exact .inr ⟨rs, added, hrs, hm⟩

/-- The guard sees of a graph with roles what it has taken over, and of the other nodes what they
were. -/
lemma violations_enriched_iff {texts : List String} (hraw : Tabled raw nodes)
    (hg : Tabled g done) (hkeys : done.keys.Perm nodes.keys)
    (hroles : ∀ k n, nodes.get? k = some n →
      ∃ m, done.get? k = some m ∧ TakenOr taken OnlyAddsRoles k n m)
    (hdistinct : ∀ k n, nodes.get? k = some n → (typeOf n).Distinct)
    (htypes : ∀ k n old, nodes.get? k = some n → taken k = some old →
      (typeOf n).same (typeOf old) = true)
    (htexts : edgeTexts raw = .ok texts) (hedges : edgeTexts g = edgeTexts raw)
    (htickets : ticketCount g = ticketCount raw) :
    violations raw g = .ok [] ↔ (∃ count, ticketCount raw = .ok count) ∧
      ∀ k n, nodes.get? k = some n → taken k = none → (typeOf n).isNaN = false := by
  have htype {n m : Json} (h : OnlyAddsRoles n m) : typeOf m = typeOf n := by
    rw [typeOf, typeOf, member?_of_structureOf_eq h.1 (by decide)]
  rw [violations_eq_nil_iff_of_tabled hraw hg, hedges, htickets]
  constructor
  · rintro ⟨-, hkinds, -, count, hcount, -⟩
    refine ⟨⟨count, hcount⟩, fun k n hn hfresh ↦ ?_⟩
    obtain ⟨m, hm, htaken⟩ := hroles k n hn
    have hsame := hkinds k
    rw [hn, hm, Option.map_some, Option.map_some, htype (htaken.fresh hfresh)] at hsame
    exact (same_self_iff (hdistinct k n hn)).1 (alike_some.1 hsame)
  · rintro ⟨⟨count, hcount⟩, hself⟩
    refine ⟨?_, fun k ↦ ?_, ⟨texts, texts, htexts, htexts, fun _ ↦ id, fun _ ↦ id⟩,
      count, hcount, hcount⟩
    · simpa [keys] using hkeys.length_eq.symm
    · cases hn : nodes.get? k with
      | none =>
        have hnone : done.get? k = none := by
          rwa [get?_eq_none_iff, hkeys.mem_iff, ← get?_eq_none_iff]
        rw [hnone]
        exact .none
      | some n =>
        obtain ⟨m, hm, htaken⟩ := hroles k n hn
        rw [hm]
        refine .some ?_
        cases hk : taken k with
        | some old => exact htaken.kept old hk ▸ htypes k n old hn hk
        | none =>
          rw [htype (htaken.fresh hk)]
          exact (same_self_iff (hdistinct k n hn)).2 (hself k n hn hk)

/-- Giving roles takes edges and tickets over, keeps every node once, and changes nothing of a node
that it looks at but by appending roles. The guard agrees if the tickets can be counted and the kind
of no node that is looked at is the value that is not a number; otherwise it does not. -/
theorem enriched_only_adds_roles {raw before report g : Json} {frameworks : List Reading}
    {nodes : Table Key Json} (hraw : Tabled raw nodes) (hedges : EdgesComplete raw)
    (hdistinct : ∀ k n, nodes.get? k = some n → (typeOf n).Distinct)
    (htypes : ∀ k n old, nodes.get? k = some n → takenFrom before report k = some old →
      (typeOf n).same (typeOf old) = true)
    (h : enriched raw before report frameworks = .ok g) :
    ∃ done, Tabled g done ∧ done.keys.Perm nodes.keys ∧
      g.member? "edges" = raw.member? "edges" ∧
      g.member? "ambiguities" = some ((raw.member? "ambiguities").getD (.arr [])) ∧
      (∀ k n, nodes.get? k = some n →
        ∃ m, done.get? k = some m ∧ TakenOr (takenFrom before report) OnlyAddsRoles k n m) ∧
      (∃ preserved fresh : Nat, statistic g "preserved" = some (.int preserved) ∧
        statistic g "enriched" = some (.int fresh) ∧ preserved + fresh = nodes.length) ∧
      (violations raw g = .ok [] ↔ (∃ count, ticketCount raw = .ok count) ∧
        ∀ k n, nodes.get? k = some n → takenFrom before report k = none →
          (typeOf n).isNaN = false) := by
  obtain ⟨p, hp, hcomplete⟩ := bind_eq_ok.1 h
  have hplanned := planned_of_plan hraw hp
  obtain ⟨t, fresh, count, ht, hrun, hg, hdone, haligned⟩ :=
    complete_spec hraw hplanned (fun _ _ ↦ identified_takenFrom) hcomplete
  have hkeys : (keys (p.preserved ++ fresh)).Perm nodes.keys := by
    rw [keys_append, (entrywise_giveRoles hrun).keys_eq]
    exact hplanned.keys_perm
  have hlength : List.length (p.preserved ++ fresh) = nodes.length := by
    simpa [keys] using hkeys.length_eq
  obtain ⟨hobject, ⟨edges, hrawEdges, hnewEdges⟩, htickets⟩ := document_spec hg
  obtain ⟨hpreserved, hfresh, -⟩ := statistic_document hg
  have hroles (k : Key) (n : Json) (hn : nodes.get? k = some n) :
      ∃ m, get? (p.preserved ++ fresh) k = some m ∧
        TakenOr (takenFrom before report) OnlyAddsRoles k n m := by
    obtain ⟨m, hm, htaken⟩ := haligned.present k n hn
    exact ⟨m, hm, htaken.kept, fun hk ↦ onlyAddsRoles_giveRoles (htaken.fresh hk)⟩
  refine ⟨_, hdone, hkeys, hnewEdges.trans hrawEdges.symm, htickets, hroles,
    ⟨_, _, hpreserved, hfresh, ?_⟩, ?_⟩
  · simpa [keys] using hplanned.keys_perm.length_eq
  · obtain ⟨items, hitems⟩ : ∃ items, edges.elements = .ok items := by
      simp only [topologyOf, bind_eq_ok, need_eq_ok] at ht
      obtain ⟨edges', hedges', items, hitems, -⟩ := ht
      obtain rfl := Option.some.inj (hrawEdges.symm.trans hedges')
      exact ⟨items, hitems⟩
    obtain ⟨texts, htexts⟩ := hedges.edgeTexts hrawEdges hitems
    have hsame (name : String)
        (h : (g.member? name).getD (.arr []) = (raw.member? name).getD (.arr [])) :
        g.getD name (.arr []) = raw.getD name (.arr []) := by
      rw [getD_eq_ok.2 ⟨isObject_of_member? hnewEdges, h⟩,
        getD_eq_ok.2 ⟨hobject, rfl⟩]
    refine violations_enriched_iff hraw hdone hkeys hroles hdistinct htypes htexts ?_ ?_
    · rw [Equivalence.edgeTexts, hsame "edges" (by rw [hnewEdges, hrawEdges]),
        Equivalence.edgeTexts]
    · rw [ticketCount, hsame "ambiguities" (by rw [htickets, Option.getD_some]), ticketCount]

/-- A file and a class in it. -/
def orderNodes : Table Key Json :=
  [(.str "a.py", .obj [("id", .str "a.py"), ("type", .str "File")]),
    (.str "a.py::Order", .obj [("id", .str "a.py::Order"), ("type", .str "Class"),
      ("name", .str "Order"), ("semantic_roles", .arr [.str "audited"])])]

def orderGraph : Json := graphOf orderNodes [edgeOf "defines" "a.py" "a.py::Order"]

/-- An older graph, with a role for the file. -/
def moduleGraph : Json :=
  graphOf [(.str "a.py", .obj [("id", .str "a.py"), ("type", .str "File"),
    ("semantic_roles", .arr [.str "module"])])] []

/-- A report by which the file has not changed. -/
def fileUnchanged : Json := .obj [("node_status", .obj [("a.py", .str "UNCHANGED")])]

theorem enriched_only_adds_roles_order :
    ∃ g done m, enriched orderGraph moduleGraph fileUnchanged orderFrameworks = .ok g ∧
      Tabled g done ∧ done.get? (.str "a.py::Order") = some m ∧
      violations orderGraph g = .ok [] := by
  obtain ⟨g, hg⟩ : ∃ g, enriched orderGraph moduleGraph fileUnchanged orderFrameworks = .ok g :=
    ⟨_, rfl⟩
  have htabled : Tabled orderGraph orderNodes := Listed.tabled ⟨rfl, by decide, by decide⟩
  have hedges : EdgesComplete orderGraph := by
    intro edges items hedges hitems e he
    obtain rfl := Option.some.inj (hedges.symm.trans rfl)
    obtain rfl := Except.ok.inj (hitems.symm.trans rfl)
    obtain rfl := List.mem_singleton.1 he
    exact ⟨rfl, rfl, rfl⟩
  have hkey (k : Key) (n : Json) (hn : orderNodes.get? k = some n) :
      k = .str "a.py" ∨ k = .str "a.py::Order" := by
    simpa [orderNodes, keys] using mem_keys_of_get? hn
  have hkinds (k : Key) (n : Json) (hn : orderNodes.get? k = some n) :
      (typeOf n).Distinct ∧ (typeOf n).isNaN = false := by
    rcases hkey k n hn with rfl | rfl
    · obtain rfl := Option.some.inj (hn.symm.trans rfl)
      exact ⟨.plain rfl rfl, rfl⟩
    · obtain rfl := Option.some.inj (hn.symm.trans rfl)
      exact ⟨.plain rfl rfl, rfl⟩
  obtain ⟨done, hdone, -, -, -, hroles, -, hguard⟩ := enriched_only_adds_roles htabled hedges
    (fun k n hn ↦ (hkinds k n hn).1) (fun k n old hn hold ↦ by
      rcases hkey k n hn with rfl | rfl
      · obtain rfl := Option.some.inj (hn.symm.trans rfl)
        obtain rfl := Option.some.inj (hold.symm.trans rfl)
        rfl
      · cases hold) hg
  obtain ⟨m, hm, -⟩ := hroles (.str "a.py::Order") _ rfl
  exact ⟨g, done, m, hg, hdone, hm, hguard.2 ⟨⟨0, rfl⟩, fun k n hn _ ↦ (hkinds k n hn).2⟩⟩

/-- A node of a kind that is not a number. -/
def unnumberedNodes : Table Key Json :=
  [(.str "a", .obj [("id", .str "a"), ("type", .float Double.nan)])]

/-- A graph whose tickets are null. -/
def ticketlessGraph : Json :=
  (graphOf [(.str "a", .obj [("id", .str "a"), ("type", .str "File")])] []).setMember
    "ambiguities" .null

/-- Giving no roles at all is rejected if a kind does not equal itself, and fails if tickets cannot
be counted. -/
theorem guard_rejects_unchanged :
    (∃ g, Tabled (graphOf unnumberedNodes []) unnumberedNodes ∧
      EdgesComplete (graphOf unnumberedNodes []) ∧
      enriched (graphOf unnumberedNodes []) .null .null [] = .ok g ∧
      violations (graphOf unnumberedNodes []) g ≠ .ok []) ∧
    ∃ g e, EdgesComplete ticketlessGraph ∧ enriched ticketlessGraph .null .null [] = .ok g ∧
      violations ticketlessGraph g = .error e := by
  have hnone {g : Json} (hedges : g.member? "edges" = some (.arr [])) : EdgesComplete g := by
    intro edges items hedges' hitems e he
    obtain rfl := Option.some.inj (hedges.symm.trans hedges')
    obtain rfl := Except.ok.inj (hitems.symm.trans rfl)
    cases he
  have htabled : Tabled (graphOf unnumberedNodes []) unnumberedNodes :=
    Listed.tabled ⟨rfl, by decide, by decide⟩
  obtain ⟨g, hg, hnodes⟩ : ∃ g, enriched (graphOf unnumberedNodes []) .null .null [] = .ok g ∧
      Diff.requiredNodes g = .ok unnumberedNodes.values := ⟨_, rfl, rfl⟩
  refine ⟨⟨g, htabled, hnone rfl, hg, fun hpass ↦ ?_⟩, _, _, hnone rfl, rfl, rfl⟩
  have hdone : Tabled g unnumberedNodes := ⟨hnodes, htabled.distinct, htabled.identified⟩
  obtain ⟨-, hkinds, -⟩ := (violations_eq_nil_iff_of_tabled htabled hdone).1 hpass
  exact absurd (alike_some.1 (hkinds (.str "a"))) (by decide)

end Enrichment

end Graph

end CodeAtlas
