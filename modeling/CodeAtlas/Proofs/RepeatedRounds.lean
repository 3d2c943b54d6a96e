import CodeAtlas.Proofs.ChangeStatus
import CodeAtlas.Proofs.StructureGuard

/-!
# Builds, reports and roles in any order

Three files are kept between runs: the graph as it was built, the graph with roles and the report on
changes. Any of the three programs may be run at any time, and each reads what the others have left.
Giving roles trusts the report that it finds, so a report that is older than the graph brings nodes
of an older graph back. The node ids are right all the same.

A round compares the raw graph with the graph that has roles, and then gives roles again. While the
raw graph and the mappings stay the same, rounds have nothing to do, whichever nodes a report lets
them take over: a node that is taken over is what the full run made of it, and a node that is looked
at anew sees neighbours that differ from the raw ones in their roles only. Consequently it gets what
the full run gave it, although the nodes may change their order from round to round.
-/

namespace CodeAtlas.Graph

open Fallible Enrichment

/-- The files that are kept between runs. -/
structure Runtime where
  raw : Json
  enriched : Option Json := none
  report : Option Json := none

inductive Step
  | build (g : Json)
  | diff
  | enrich (frameworks : List Reading)

namespace Runtime

variable {s : Runtime} {nodes : Table Key Json}

/-- The graph with roles that giving roles writes. -/
def enrich (s : Runtime) (frameworks : List Reading) : Except Fault Json :=
  Enrichment.enriched s.raw (s.enriched.getD .null) (s.report.getD .null) frameworks

def diff (s : Runtime) : Except Fault Json := Diff.report s.raw (s.enriched.getD .null)

/-- What a step leaves. One that fails writes nothing. -/
def after (s : Runtime) : Step → Runtime
  | .build g => { s with raw := g }
  | .diff =>
    match s.diff with
    | .ok r => { s with report := some r }
    | .error _ => s
  | .enrich frameworks =>
    match s.enrich frameworks with
    | .ok g => { s with enriched := some g }
    | .error _ => s

def run (s : Runtime) (steps : List Step) : Runtime := steps.foldl after s

/-- The nodes of both graphs have distinct texts for ids. -/
structure Valid (s : Runtime) : Prop where
  raw : ∃ nodes, Listed s.raw nodes
  enriched : ∀ g, s.enriched = some g → ∃ nodes, Listed g nodes

/-- The nodes of the older graph with roles; there are none without one. -/
def oldNodes (s : Runtime) : Table Key Json :=
  ((Diff.requiredNodes (s.enriched.getD .null)) >>= Diff.nodesById).toOption.getD []

/-- The node that giving roles would take over under a key. -/
def taken (s : Runtime) (k : Key) : Option Json :=
  if isFull (s.enriched.getD .null) (s.report.getD .null) = true then none
  else takenOver s.oldNodes (s.report.getD .null) k

lemma oldNodes_eq {g : Json} {old : Table Key Json} (hg : s.enriched = some g)
    (hold : Listed g old) : s.oldNodes = old := by
  rw [oldNodes, hg, Option.getD_some, hold.nodesById]
  rfl

lemma enrich_spec {frameworks : List Reading} {g : Json}
    (hraw : Listed s.raw nodes) (h : s.enrich frameworks = .ok g) : ∃ done, Listed g done ∧
      Aligned (TakenOr s.taken fun n m ↦ structureOf m = structureOf n) nodes done := by
  obtain ⟨p, hp, hcomplete⟩ := bind_eq_ok.1 h
  obtain ⟨t, fresh, count, -, -, -, hdone, haligned⟩ := complete_spec hraw.tabled
    (planned_of_plan hraw.tabled hp) (fun _ _ ↦ identified_takenFrom) hcomplete
  exact ⟨_, hraw.of_aligned hdone haligned, haligned.imp fun _ _ _ hm ↦
    ⟨hm.kept, fun hnot ↦ structureOf_giveRoles (hm.fresh hnot)⟩⟩

lemma Valid.after (hs : s.Valid) {step : Step}
    (hstep : ∀ g, step = .build g → ∃ nodes, Listed g nodes) : (s.after step).Valid := by
  cases step with
  | build g => exact ⟨hstep g rfl, hs.enriched⟩
  | diff =>
    rw [Runtime.after]
    split
    · exact ⟨hs.raw, hs.enriched⟩
    · exact hs
  | enrich frameworks =>
    rw [Runtime.after]
    split
    next g hg =>
      obtain ⟨nodes, hraw⟩ := hs.raw
      obtain ⟨done, hdone, -⟩ := enrich_spec hraw hg
      refine ⟨hs.raw, fun g' hg' ↦ ?_⟩
      cases hg'
      exact ⟨done, hdone⟩
    · exact hs

lemma run_append (s : Runtime) (steps steps' : List Step) :
    s.run (steps ++ steps') = (s.run steps).run steps' := List.foldl_append

lemma Valid.run (hs : s.Valid) {steps : List Step}
    (hsteps : ∀ g, .build g ∈ steps → ∃ nodes, Listed g nodes) : (s.run steps).Valid := by
  induction steps generalizing s with
  | nil => exact hs
  | cons step rest ih =>
    refine ih (hs.after fun g hg ↦ hsteps g (hg ▸ List.mem_cons_self)) fun g hg ↦ ?_
    exact hsteps g (List.mem_cons_of_mem _ hg)

/-- Under the report that a comparison would write now, just the nodes that count as unchanged are
taken over. -/
lemma Valid.taken_of_diff (hs : s.Valid) (hraw : Listed s.raw nodes) {r : Json}
    (hreport : s.report = some r) (hr : s.diff = .ok r) {k : Key} {n kept : Json}
    (hn : nodes.get? k = some n) :
    s.taken k = some kept ↔ Kept s.raw nodes s.oldNodes k ∧ s.oldNodes.get? k = some kept := by
  cases henriched : s.enriched with
  | none =>
    have hempty : s.oldNodes = [] := by
      rw [oldNodes, henriched]
      rfl
    have hnothing : s.taken k = none := by
      rw [taken, henriched, if_pos (by simp [isFull, Json.truthy])]
    simp [hnothing, hempty]
  | some old =>
    obtain ⟨oldNodes, hlisted⟩ := hs.enriched old henriched
    rw [diff, henriched, Option.getD_some] at hr
    have hpartial : ¬isFull old r = true := by
      simp [isFull, Diff.truthy_report hr, hlisted.truthy]
    have htaken : s.taken k = takenOver oldNodes r k := by
      rw [taken, henriched, hreport, Option.getD_some, Option.getD_some, if_neg hpartial,
        oldNodes_eq henriched hlisted]
    rw [htaken, oldNodes_eq henriched hlisted]
    obtain ⟨hkept, hnot⟩ := takenOver_report hraw hlisted (fun _ ↦ rfl) hr hn
    by_cases h : Kept s.raw nodes oldNodes k
    · obtain ⟨kept', hget, htakenOver⟩ := hkept h
      simp [h, hget, htakenOver]
    · simp [h, hnot h]

/-- Nothing is stale just if whatever is taken over has the structure that was built. -/
lemma sameStructures_iff {done : Table Key Json}
    (h : Aligned (TakenOr s.taken fun n m ↦ structureOf m = structureOf n) nodes done) :
    SameStructures done nodes ↔ ∀ k n kept, nodes.get? k = some n → s.taken k = some kept →
      structureOf kept = structureOf n := by
  constructor
  · intro hsame k n kept hn hkept
    obtain ⟨m, hm, htaken, -⟩ := h.present k n hn
    have hk := hsame k
    rw [hm, hn, htaken kept hkept] at hk
    exact Option.some.inj hk
  · intro hstructures
    refine sameStructures_of_aligned ⟨h.absent, fun k n hn ↦ ?_⟩
    obtain ⟨m, hm, htaken, hfresh⟩ := h.present k n hn
    refine ⟨m, hm, ?_⟩
    cases hkept : s.taken k with
    | none => exact hfresh hkept
    | some kept => rw [htaken kept hkept, hstructures k n kept hn hkept]

/-- After any run that ends by giving roles, the graph with roles has the node ids of the graph that
was built last. Its nodes have the structure that was built just if all nodes that were taken over
have; with the report that a comparison would write at that time, just if all nodes that count as
unchanged have kept their structure. -/
theorem structure_after_enrich {raw g : Json} {steps : List Step} {frameworks : List Reading}
    {s : Runtime} (hraw : ∃ nodes, Listed raw nodes)
    (hsteps : ∀ g, .build g ∈ steps → ∃ nodes, Listed g nodes)
    (hs : s = Runtime.run { raw } steps) (h : s.enrich frameworks = .ok g) :
    (Runtime.run { raw } (steps ++ [.enrich frameworks])).enriched = some g ∧
      ∃ nodes done, Listed s.raw nodes ∧ Listed g done ∧
        (∀ k, k ∈ done.keys ↔ k ∈ nodes.keys) ∧
        (SameStructures done nodes ↔ ∀ k n kept, nodes.get? k = some n →
          s.taken k = some kept → structureOf kept = structureOf n) ∧
        ∀ r, s.report = some r → s.diff = .ok r →
          (SameStructures done nodes ↔ ∀ k n kept, nodes.get? k = some n →
            s.oldNodes.get? k = some kept → Kept s.raw nodes s.oldNodes k →
            structureOf kept = structureOf n) := by
  have hvalid : s.Valid := by
    rw [hs]
    exact Valid.run ⟨hraw, by simp⟩ hsteps
  obtain ⟨nodes, hnodes⟩ := hvalid.raw
  obtain ⟨done, hdone, haligned⟩ := enrich_spec hnodes h
  have hiff := sameStructures_iff haligned
  refine ⟨?_, nodes, done, hnodes, hdone, haligned.mem_keys_iff, hiff, fun r hreport hr ↦ ?_⟩
  · rw [run_append, ← hs]
    show (s.after (.enrich frameworks)).enriched = some g
    rw [Runtime.after, h]
  · rw [hiff]
    constructor
    · intro hstructures k n kept hn hget hkept
      exact hstructures k n kept hn ((hvalid.taken_of_diff hnodes hreport hr hn).2 ⟨hkept, hget⟩)
    · intro hstructures k n kept hn htaken
      obtain ⟨hkept, hget⟩ := (hvalid.taken_of_diff hnodes hreport hr hn).1 htaken
      exact hstructures k n kept hn hget hkept

/-- The class has got another name, and its file another hash. -/
def renamedNodes : Table Key Json := [fileEntry "a.py" "2", classEntry "a.py::Shop" "Store"]

def renamedGraph : Json := graphOf renamedNodes [edgeOf "defines" "a.py" "a.py::Shop"]

lemma listed_renamedGraph : Listed renamedGraph renamedNodes := ⟨rfl, by decide, by decide⟩

/-- Roles are given and compared with the graph they come from, and then the class is renamed. -/
def classRename : List Step := [.enrich entityMapping, .diff, .build renamedGraph]

lemma listed_of_build_mem_classRename (g : Json) (h : .build g ∈ classRename) :
    ∃ nodes, Listed g nodes := by
  simp only [classRename, List.mem_cons, Step.build.injEq, reduceCtorEq, List.not_mem_nil, or_false,
    false_or] at h
  exact ⟨renamedNodes, h ▸ listed_renamedGraph⟩

lemma exists_enrich_classRename :
    ∃ g, (Runtime.run { raw := shopGraph } classRename).enrich entityMapping = .ok g := ⟨_, rfl⟩

theorem structure_after_enrich_classRename :
    ∃ g, (Runtime.run { raw := shopGraph } classRename).enrich entityMapping = .ok g ∧
      ∃ nodes done, Listed (Runtime.run { raw := shopGraph } classRename).raw nodes ∧
        Listed g done ∧ ∀ k, k ∈ done.keys ↔ k ∈ nodes.keys := by
  obtain ⟨g, hg⟩ := exists_enrich_classRename
  obtain ⟨-, nodes, done, hnodes, hdone, hkeys, -⟩ := structure_after_enrich
    ⟨shopNodes, listed_shopGraph⟩ listed_of_build_mem_classRename rfl hg
  exact ⟨g, hg, nodes, done, hnodes, hdone, hkeys⟩

/-- The renamed class comes out under its old name. -/
theorem stale_structure_after_enrich :
    Listed shopGraph shopNodes ∧ Listed renamedGraph renamedNodes ∧
      ∃ g m n, (Runtime.run { raw := shopGraph } (classRename ++ [.enrich entityMapping])).raw =
          renamedGraph ∧
        (Runtime.run { raw := shopGraph } (classRename ++ [.enrich entityMapping])).enriched =
        some g ∧ (Runtime.run { raw := shopGraph } classRename).enrich entityMapping = .ok g ∧
        node? g (.str "a.py::Shop") = .ok (some m) ∧
        node? renamedGraph (.str "a.py::Shop") = .ok (some n) ∧ structureOf m ≠ structureOf n := by
  refine ⟨listed_shopGraph, listed_renamedGraph, _, _, _, rfl, rfl, rfl, rfl, rfl, fun h ↦ ?_⟩
  have hname := member?_of_structureOf_eq h (show "name" ≠ "semantic_roles" by decide)
  exact absurd hname (by decide)

end Runtime
open Fallible Enrichment

/-! ## Neighbours with roles -/

namespace Topology.Mirrors

variable {t : Topology} {now : Table Key Json}

lemma applyRuleTo_eq (h : t.Mirrors now) : applyRuleTo (t.withNodes now) = applyRuleTo t := by
  funext n rule
  simp only [applyRuleTo, h.applyTo_eq]

lemma applyRule_eq (h : t.Mirrors now) : applyRule (t.withNodes now) = applyRule t := by
  funext s rule
  simp only [Enrichment.applyRule_eq]
  refine bind_congr fun role ↦ bind_congr fun kind ↦ bind_congr fun detection ↦ ?_
  have hnext : applyNext (t.withNodes now) role kind detection =
      applyNext t role kind detection := by
    funext s e
    simp only [applyNext, h.applyTo_eq]
  rw [hnext]

lemma giveRoles_eq (h : t.Mirrors now) (frameworks : List Reading) (n : Json) :
    giveRoles (t.withNodes now) frameworks n = giveRoles t frameworks n := by
  rw [giveRoles, giveRoles, h.applyRuleTo_eq]

end Topology.Mirrors

namespace Enrichment

/-! ## What a full run settles -/

/-- A full run over the raw nodes comes to its end, and makes of them the nodes of the second table.
-/
structure Settled (raw : Json) (frameworks : List Reading) (nodes all : Table Key Json)
    (t : Topology) : Prop where
  tabled : Tabled raw nodes
  surroundings : topologyOf { fresh := nodes } raw = .ok t
  rules : ∃ lists, frameworks.mapM rulesOf = .ok lists ∧
    ∀ rule ∈ lists.flatten, Readable rule ∧ ∀ e ∈ nodes, ∃ m, applyRuleTo t e.2 rule = .ok m
  given : Aligned (fun _ n m ↦ giveRoles t frameworks n = .ok m) nodes all

/-- A graph has the nodes of a table, in any order, and the edges and tickets of the raw graph. -/
structure Repeats (raw : Json) (all : Table Key Json) (g : Json) : Prop where
  nodes : ∃ done, Tabled g done ∧ ∀ k, done.get? k = all.get? k
  edges : ∃ edges, raw.member? "edges" = some edges ∧ g.member? "edges" = some edges
  tickets : g.member? "ambiguities" = some ((raw.member? "ambiguities").getD (.arr []))

lemma settled_of_full {raw before report g : Json} {frameworks : List Reading}
    {nodes : Table Key Json} (hraw : Tabled raw nodes) (hfull : isFull before report = true)
    (h : enriched raw before report frameworks = .ok g) :
    ∃ all t, Settled raw frameworks nodes all t ∧ Repeats raw all g := by
  obtain ⟨t, lists, _, count, ht, hlists, hrun, hg⟩ := (enriched_iff_of_full hraw hfull).1 h
  obtain ⟨t', all, ht', htabled, haligned⟩ := enriched_of_full hraw hfull h
  cases ht.symm.trans ht'
  obtain ⟨-, hedges, htickets⟩ := document_spec hg
  exact ⟨all, t, ⟨hraw, ht, ⟨lists, hlists, foldlM_applyRule_completes.1 ⟨_, hrun⟩⟩, haligned⟩,
    ⟨all, htabled, fun _ ↦ rfl⟩, hedges, htickets⟩

/-! ## Giving roles again -/

/-- The statuses in a report can be looked up. -/
def HasStatuses (report : Json) : Prop :=
  ∃ statuses, report.getD "node_status" (.obj []) = .ok (.obj statuses)

lemma exists_reported {report : Json} (h : HasStatuses report) (k : Key) :
    ∃ status, reported report k = .ok status := by
  obtain ⟨statuses, hstatuses⟩ := h
  rw [reported, hstatuses]
  cases k <;> exact ⟨_, rfl⟩

lemma exists_plan {raw before report : Json} {nodes old : Table Key Json} (hraw : Tabled raw nodes)
    (hbefore : Tabled before old) (hreport : HasStatuses report) :
    ∃ p, plan raw before report = .ok p := by
  obtain ⟨values, hvalues, hbyId⟩ := bind_eq_ok.1 hraw.nodesById
  obtain ⟨oldValues, holdValues, holdById⟩ := bind_eq_ok.1 hbefore.nodesById
  have ⟨statuses, hstatuses⟩ := hreport
  rw [plan]
  split
  · simp only [bind_eq_ok, pure_eq_ok]
    exact ⟨_, values, hvalues, nodes, hbyId, rfl⟩
  · simp only [holdValues, holdById, hvalues, hbyId, hstatuses, bind, Except.bind]
    refine foldlM_succeeds (fun p e _ ↦ ?_) _
    obtain ⟨status, hstatus⟩ := exists_reported hreport e.1
    simp only [hstatus]
    split
    · split <;> exact ⟨_, rfl⟩
    · exact ⟨_, rfl⟩

section Settled

variable {raw before report : Json} {frameworks : List Reading} {nodes all : Table Key Json}
  {t : Topology}

lemma Repeats.takenFrom_eq (h : Repeats raw all before) {k : Key} {kept : Json}
    (hkept : takenFrom before report k = some kept) : all.get? k = some kept := by
  obtain ⟨done, htabled, hget⟩ := h.nodes
  have hnodes : nodesBefore before = done := by
    rw [nodesBefore, htabled.nodesById]
    rfl
  rw [takenFrom] at hkept
  split at hkept
  · cases hkept
  · rw [takenOver, hnodes] at hkept
    split at hkept
    · rw [← hget, hkept]
    · cases hkept

/-- The nodes that a run looks at differ from the raw ones in their roles only. -/
lemma Settled.mirrors (h : Settled raw frameworks nodes all t) (hbefore : Repeats raw all before)
    {p : Plan} (hp : Planned nodes (takenFrom before report) p) :
    t.Mirrors (p.preserved ++ p.fresh) := by
  have hmirrors := mirrors_topologyOf h.tabled.identified h.surroundings
  refine ⟨fun k ↦ ?_, hmirrors.ids⟩
  rw [hp.get?, ← hmirrors.structures k]
  cases hn : nodes.get? k with
  | none => rfl
  | some n =>
    cases hkept : takenFrom before report k with
    | none => rfl
    | some kept =>
      obtain ⟨m, hm, hroles⟩ := h.given.present k n hn
      cases (hbefore.takenFrom_eq hkept).symm.trans hm
      simp [structureOf_giveRoles hroles]

/-- What was settled for all nodes can be done for those that a plan leaves to be looked at. -/
lemma Settled.exists_complete (h : Settled raw frameworks nodes all t)
    (hbefore : Repeats raw all before) {p : Plan} (hp : Planned nodes (takenFrom before report) p) :
    ∃ g, complete raw report p frameworks = .ok g := by
  obtain ⟨lists, hlists, hrules⟩ := h.rules
  have hrun : ∃ s, lists.flatten.foldlM (applyRule t) (p.fresh, 0) = .ok s := by
    refine foldlM_applyRule_completes.2 fun rule hrule ↦ ⟨(hrules rule hrule).1, fun e he ↦ ?_⟩
    rw [hp.fresh] at he
    exact (hrules rule hrule).2 e (List.mem_of_mem_filter he)
  obtain ⟨⟨fresh, count⟩, hrun⟩ := hrun
  obtain ⟨edges, hedges, -⟩ := hbefore.edges
  obtain ⟨g, hg⟩ := exists_document hedges report p fresh count
  refine ⟨g, ?_⟩
  simp only [complete, bind_eq_ok, Prod.exists]
  refine ⟨_, topologyOf_withNodes h.surroundings p, fresh, count,
    (foldlM_frameworks (applyFramework_eq _)).2 ⟨lists, hlists, ?_⟩, hg⟩
  rw [(h.mirrors hbefore hp).applyRule_eq]
  exact hrun

/-- Whatever a report says, giving roles again to a graph that has all its roles comes to its end
and changes none of its nodes. -/
lemma Settled.enriched (h : Settled raw frameworks nodes all t) (hbefore : Repeats raw all before)
    (hreport : HasStatuses report) :
    ∃ g, Enrichment.enriched raw before report frameworks = .ok g ∧ Repeats raw all g := by
  obtain ⟨done, hdone, -⟩ := hbefore.nodes
  obtain ⟨p, hp⟩ := exists_plan h.tabled hdone hreport
  have hplanned := planned_of_plan h.tabled hp
  obtain ⟨g, hcomplete⟩ := h.exists_complete hbefore hplanned
  obtain ⟨t', fresh, _, ht', -, hg, htabled, haligned⟩ :=
    complete_spec h.tabled hplanned (fun _ _ ↦ identified_takenFrom) hcomplete
  cases (topologyOf_withNodes h.surroundings p).symm.trans ht'
  obtain ⟨-, hedges', htickets⟩ := document_spec hg
  refine ⟨g, bind_eq_ok.2 ⟨p, hp, hcomplete⟩, ⟨_, htabled, fun k ↦ ?_⟩, hedges', htickets⟩
  cases hn : nodes.get? k with
  | none => rw [haligned.absent k hn, h.given.absent k hn]
  | some n =>
    obtain ⟨m, hm, htaken, hfresh⟩ := haligned.present k n hn
    obtain ⟨m', hm', hroles⟩ := h.given.present k n hn
    rw [hm, hm']
    cases hkept : takenFrom before report k with
    | some kept => rw [htaken kept hkept, ← hm', hbefore.takenFrom_eq hkept]
    | none =>
      -- Its neighbours may have been taken over with their roles, which no rule looks at.
      have hroles' := hfresh hkept
      rw [(h.mirrors hbefore hplanned).giveRoles_eq, hroles] at hroles'
      rw [Except.ok.inj hroles']

end Settled

end Enrichment

/-! ## Rounds -/

namespace Runtime

/-- Compares the raw graph with the graph with roles, and gives roles again. -/
def round (s : Runtime) (frameworks : List Reading) : Except Fault Runtime := do
  let compared := { s with report := some (← s.diff) }
  return { compared with enriched := some (← compared.enrich frameworks) }

/-- One round after the other. -/
def rounds (frameworks : List Reading) : Nat → Runtime → Except Fault Runtime
  | 0, s => .ok s
  | k + 1, s => do rounds frameworks k (← s.round frameworks)

/-- Two graphs have the same node under each id, and the same edges and tickets. -/
structure SameContent (g g' : Json) : Prop where
  nodes : ∃ done done', Tabled g done ∧ Tabled g' done' ∧ ∀ k, done'.get? k = done.get? k
  edges : g'.member? "edges" = g.member? "edges"
  tickets : g'.member? "ambiguities" = g.member? "ambiguities"

section Rounds

variable {s : Runtime} {frameworks : List Reading} {g : Json} {nodes all : Table Key Json}
  {t : Topology} {edges : List Json}

lemma ownable_of_repeats (h : Ownable s.raw edges) (hg : Repeats s.raw all g) :
    Ownable g edges := by
  refine ⟨?_, h.kinds, h.ends⟩
  obtain ⟨listed, hraw, hedges⟩ := hg.edges
  rw [← h.found, edgesOf, edgesOf, Json.getD_eq_ok.2 ⟨Json.isObject_of_member? hedges, rfl⟩,
    Json.getD_eq_ok.2 ⟨Json.isObject_of_member? hraw, rfl⟩, hedges, hraw]

/-- A round comes to its end and leaves the graph with roles as it is, but for the order of its
nodes. -/
lemma exists_round (hedges : Ownable s.raw edges) (h : Settled s.raw frameworks nodes all t)
    (hg : s.enriched = some g) (hrepeats : Repeats s.raw all g) :
    ∃ s' g', s.round frameworks = .ok s' ∧ s'.raw = s.raw ∧ s'.enriched = some g' ∧
      Repeats s.raw all g' := by
  obtain ⟨done, hdone, -⟩ := hrepeats.nodes
  obtain ⟨owners, r, -, -, hr, -⟩ := Diff.exists_report h.tabled hedges
    (.present hdone (ownable_of_repeats hedges hrepeats))
  have hstatuses : HasStatuses r.document := ⟨_, rfl⟩
  obtain ⟨g', hg', hrepeats'⟩ := h.enriched hrepeats hstatuses
  have hdiff : s.diff = .ok r.document := by
    rw [diff, hg]
    exact hr
  have henrich : Runtime.enrich { s with report := some r.document } frameworks = .ok g' := by
    rw [Runtime.enrich, hg]
    exact hg'
  refine ⟨{ s with report := some r.document, enriched := some g' }, g', ?_, rfl, rfl, hrepeats'⟩
  exact bind_eq_ok.2 ⟨_, hdiff, bind_eq_ok.2 ⟨g', henrich, rfl⟩⟩

lemma exists_rounds (hedges : Ownable s.raw edges) (h : Settled s.raw frameworks nodes all t)
    (hg : s.enriched = some g) (hrepeats : Repeats s.raw all g) (k : Nat) :
    ∃ s' g', rounds frameworks k s = .ok s' ∧ s'.raw = s.raw ∧ s'.enriched = some g' ∧
      Repeats s.raw all g' := by
  induction k generalizing s g with
  | zero => exact ⟨s, g, rfl, rfl, hg, hrepeats⟩
  | succ k ih =>
    obtain ⟨s₁, g₁, hround, hraw₁, hg₁, hrepeats₁⟩ := exists_round hedges h hg hrepeats
    rw [← hraw₁] at hedges h hrepeats₁ ⊢
    obtain ⟨s', g', hrest, hend⟩ := ih hedges h hg₁ hrepeats₁
    exact ⟨s', g', bind_eq_ok.2 ⟨s₁, hround, hrest⟩, hend⟩

end Rounds

/-- Once all nodes have been given their roles, any number of rounds comes to its end and leaves
under each id the node that was there, with the same edges and tickets, as long as the raw graph and
the mappings stay the same. -/
theorem rounds_repeat {s : Runtime} {frameworks : List Reading} {g : Json} {nodes : Table Key Json}
    {edges : List Json} (hraw : Tabled s.raw nodes) (hedges : Ownable s.raw edges)
    (hfull : isFull (s.enriched.getD .null) (s.report.getD .null) = true)
    (h : s.enrich frameworks = .ok g) (k : Nat) :
    ∃ s' g', rounds frameworks k { s with enriched := some g } = .ok s' ∧ s'.raw = s.raw ∧
      s'.enriched = some g' ∧ SameContent g g' := by
  obtain ⟨all, t, hsettled, hrepeats⟩ := settled_of_full hraw hfull h
  have hrun : ∃ s' g', rounds frameworks k { s with enriched := some g } = .ok s' ∧
      s'.raw = s.raw ∧ s'.enriched = some g' ∧ Repeats s.raw all g' :=
    exists_rounds (s := { s with enriched := some g }) hedges hsettled rfl hrepeats k
  obtain ⟨s', g', hrun, hraw', hg', hrepeats'⟩ := hrun
  obtain ⟨done, hdone, hget⟩ := hrepeats.nodes
  obtain ⟨done', hdone', hget'⟩ := hrepeats'.nodes
  obtain ⟨edges, hrawEdges, hedges⟩ := hrepeats.edges
  obtain ⟨edges', hrawEdges', hedges'⟩ := hrepeats'.edges
  refine ⟨s', g', hrun, hraw', hg', ⟨done, done', hdone, hdone', fun k ↦ ?_⟩, ?_, ?_⟩
  · rw [hget, hget']
  · rw [hedges, hedges', ← hrawEdges, hrawEdges']
  · rw [hrepeats.tickets, hrepeats'.tickets]

/-- Two classes that extend a model. A file owns one of them; no file owns the other or the model.
-/
def partlyOwnedNodes : Table Key Json :=
  [classEntry "x" "Cart", fileEntry "a.py" "1", classEntry "a.py::Order" "Order",
    classEntry "m" "Model"]

def partlyOwnedEdges : List Json :=
  [edgeOf "defines" "a.py" "a.py::Order", edgeOf "extends" "a.py::Order" "m",
    edgeOf "extends" "x" "m"]

def partlyOwnedGraph : Json := graphOf partlyOwnedNodes partlyOwnedEdges

lemma exists_enrich_partlyOwned :
    ∃ g, Runtime.enrich { raw := partlyOwnedGraph } entityMapping = .ok g := ⟨_, rfl⟩

theorem rounds_repeat_partlyOwned :
    ∃ g s' g', Runtime.enrich { raw := partlyOwnedGraph } entityMapping = .ok g ∧
      rounds entityMapping 2 { raw := partlyOwnedGraph, enriched := some g } = .ok s' ∧
      s'.enriched = some g' ∧ SameContent g g' := by
  obtain ⟨g, hg⟩ := exists_enrich_partlyOwned
  have hraw : Tabled partlyOwnedGraph partlyOwnedNodes :=
    Listed.tabled ⟨rfl, by decide, by decide⟩
  have hedges : Ownable partlyOwnedGraph partlyOwnedEdges := .of_keyed rfl (by decide)
  obtain ⟨s', g', hrun, -, hg', hsame⟩ := rounds_repeat hraw hedges rfl hg 2
  exact ⟨g, s', g', hg, hrun, hg', hsame⟩

end Runtime

end CodeAtlas.Graph
