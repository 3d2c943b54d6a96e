import CodeAtlas.Build.MarkupGraph
import CodeAtlas.Build.Registry
import CodeAtlas.Build.StyleGraph
import CodeAtlas.Proofs.BuiltGraph

/-!
# One gate for edges

Builders ask the schema before they add an edge, and the check asks it again about the finished
graph. Builders keep what has the shape of a rule, and the check keeps every category but the
commentary. For a schema whose categories hold nothing but rules, and whose commentary holds none,
both read the same rules, and a kind of edge that several categories list has the rule of the last
of them. A builder may then add an edge just if the check finds no fault with it.
-/

namespace CodeAtlas.Build

open Fallible CodeAtlas.Graph CodeAtlas.Graph.Conformance List Json Table EdgeRules

variable {rules : EdgeRules} {errors : List Json} {s : CoreSchema} {types : Types} {category : Json}

/-! ## Rules -/

/-- Categories hold rules that name kinds at both ends, and the commentary holds none. -/
structure Orderly (categories : List (String × Json)) : Prop where
  rules : ∀ c ∈ categories, c.1 ≠ "_meta" → ∀ e ∈ c.2.members, isTextual e.2 = true
  commentary : ∀ c ∈ categories, c.1 = "_meta" → ∀ e ∈ c.2.members, e.2.member? "from" = none

lemma addCategory_of_rules (h : ∀ e ∈ category.members, isTextual e.2 = true) :
    addCategory rules category = merge rules category.members := by
  apply foldl_ext
  intro rules e he
  have hfrom := (ends_of_isTextual (h e he) mem_cons_self).1
  exact if_pos (by rw [hfrom]; rfl)

lemma addCategory_of_commentary (h : ∀ e ∈ category.members, e.2.member? "from" = none) :
    addCategory rules category = rules := by
  calc
    addCategory rules category = category.members.foldl (fun rules _ ↦ rules) rules := by
      apply foldl_ext
      intro rules e he
      exact if_neg (by rw [h e he]; exact Bool.false_ne_true)
    _ = rules := foldl_fixed _

namespace Orderly

variable {categories : List (String × Json)}

lemma edgeTypesOf (h : Orderly categories) :
    CoreSchema.edgeTypesOf (.obj categories) = ofDocument (.obj categories) := by
  refine congrArg Except.ok (foldl_ext _ _ _ ?_)
  intro rules c hc
  by_cases hmeta : c.1 = "_meta"
  · exact (if_pos (beq_iff_eq.2 hmeta)).trans
      (addCategory_of_commentary (h.commentary c hc hmeta)).symm
  · exact (if_neg fun heq ↦ hmeta (beq_iff_eq.1 heq)).trans
      (addCategory_of_rules (h.rules c hc hmeta)).symm

lemma isTextual_of_mem (h : Orderly categories)
    (hrules : ofDocument (.obj categories) = .ok rules) {e : String × Json} (he : e ∈ rules) :
    isTextual e.2 = true := by
  obtain ⟨c, hc, hmeta, he⟩ := exists_category (h.edgeTypesOf.trans hrules) e he
  exact h.rules c hc hmeta e he

end Orderly

/-! ## What builders may add -/

lemma exists_allows (h : ∀ e ∈ rules, isTextual e.2 = true) (edge source target : String) :
    ∃ allowed, rules.allows edge source target = .ok allowed :=
  ⟨_, allows_eq h edge _ _⟩

lemma rules_of_ofDocuments {instructions mapping : Json} {setup : MarkupGraph.Setup}
    (h : MarkupGraph.Setup.ofDocuments instructions mapping rules = .ok setup) :
    setup.outline.rules = rules := by
  simp only [MarkupGraph.Setup.ofDocuments, bind_eq_ok, pure_eq_ok] at h
  obtain ⟨known, -, policy, -, marks, -, rfl⟩ := h
  rfl

lemma rules_of_outlineOf {instructions mapping : Json} {o : Outline}
    (h : StyleGraph.outlineOf instructions mapping rules = .ok o) : o.rules = rules := by
  simp only [StyleGraph.outlineOf, bind_eq_ok, pure_eq_ok] at h
  obtain ⟨known, -, rfl⟩ := h
  rfl

/-! ## What the check finds -/

/-- What the check can find wrong with an edge. -/
def edgeIssues : List String :=
  ["Malformed Edge", "Invalid Edge Type", "Orphaned Edge Source", "Orphaned Edge Target",
    "Invalid Edge Relationship (Source)", "Invalid Edge Relationship (Target)"]

def isAboutEdge (error : Json) : Bool :=
  edgeIssues.any fun issue ↦ error.member? "issue" = some (.str issue)

lemma isAboutEdge_of_checkTriple {rule edge source target : Json}
    (h : checkTriple rule edge source target = .ok errors) :
    ∀ e ∈ errors, isAboutEdge e = true := by
  simp only [checkTriple, bind_eq_ok, pure_eq_ok] at h
  obtain ⟨sources, -, targets, -, rfl⟩ := h
  intro e he
  rcases mem_append.1 he with he | he
  all_goals
    split at he
    · cases he
    · obtain rfl := mem_singleton.1 he
      rfl

lemma isAboutEdge_of_checkEdge {edge : Json} (h : checkEdge s types edge = .ok errors) :
    ∀ e ∈ errors, isAboutEdge e = true := by
  simp only [checkEdge, bind_eq_ok] at h
  obtain ⟨kind, -, source, -, target, -, h⟩ := h
  split at h
  · cases h
    simp [isAboutEdge, edgeIssues, member?_obj, get?]
  · obtain ⟨rule?, -, h⟩ := bind_eq_ok.1 h
    cases rule? with
    | none =>
      cases h
      simp [isAboutEdge, edgeIssues, member?_obj, get?]
    | some rule =>
      simp only [bind_eq_ok] at h
      obtain ⟨sourceKey, -, targetKey, -, h⟩ := h
      split at h
      next =>
        cases h
        simp [isAboutEdge, edgeIssues, member?_obj, get?]
      next =>
        cases h
        simp [isAboutEdge, edgeIssues, member?_obj, get?]
      next => exact isAboutEdge_of_checkTriple h

lemma not_isAboutEdge_of_checkNode {types' : Types} {n : Json}
    (h : checkNode s types n = .ok (types', errors)) : ∀ e ∈ errors, isAboutEdge e = false := by
  simp only [checkNode, bind_eq_ok] at h
  obtain ⟨_, -, _, -, _, -, _, -, h⟩ := h
  split at h
  · cases h
    simp [isAboutEdge, edgeIssues, member?_obj, get?]
  · split at h
    · cases h
      simp [isAboutEdge, edgeIssues, member?_obj, get?]
    · simp only [bind_eq_ok] at h
      obtain ⟨_, -, known, -, h⟩ := h
      cases known with
      | true =>
        cases h
        simp
      | false =>
        cases h
        simp [isAboutEdge, edgeIssues, member?_obj, get?]

lemma not_isAboutEdge_of_checkNodes {nodes : List Json}
    (h : checkNodes s nodes = .ok (types, errors)) : ∀ e ∈ errors, isAboutEdge e = false := by
  refine foldlM_invariant (fun _ (found : Types × List Json) ↦ ∀ e ∈ found.2, isAboutEdge e = false)
    ?_ (by simp) h
  rintro - ⟨types, errors⟩ n ⟨types', errors'⟩ hmet hstep
  simp only [bind_eq_ok, pure_eq_ok, Prod.mk.injEq] at hstep
  obtain ⟨⟨_, found⟩, hfound, -, rfl⟩ := hstep
  exact forall_mem_append.2 ⟨hmet, not_isAboutEdge_of_checkNode hfound⟩

lemma checkEdge_iff_allows (htextual : ∀ e ∈ s.edgeTypes, isTextual e.2 = true) {e : Json}
    {kind source target A B : String} {allowed : Bool} (h : Joins e kind source target)
    (hkind : kind ≠ "") (hsource : source ≠ "") (htarget : target ≠ "")
    (hA : types.get? (.str source) = some (.str A)) (hB : types.get? (.str target) = some (.str B))
    (hallowed : allows s.edgeTypes kind A B = .ok allowed) :
    ∃ errors, checkEdge s types e = .ok errors ∧ (allowed = true ↔ errors = []) := by
  obtain ⟨hobject, hkeys⟩ := h.legible
  obtain ⟨errors, herrors⟩ :=
    checkEdge_succeeds (fun e he ↦ ruled_of_isTextual (htextual e he)) types hobject hkeys
  refine ⟨errors, herrors, ?_⟩
  rw [checkEdge_spec (fun k v hk hv ↦ ?_) herrors,
    h.edgeFits_iff htextual hkind hsource htarget hA hB, hallowed, Except.ok.injEq]
  obtain ⟨-, hfrom, hto⟩ := h.fields
  rw [hfrom, hto] at hk
  rcases hk with hk | hk
  · cases hk
    exact ⟨A, Option.some.inj (hv.symm.trans hA)⟩
  · cases hk
    exact ⟨B, Option.some.inj (hv.symm.trans hB)⟩

/-! ## Agreement -/

/-- A graph of two nodes, in either order, with one edge between them. -/
structure IsLink (graph m n e : Json) (a b kind A B : String) : Prop where
  source : Named m a A
  target : Named n b B
  edge : Joins e kind a b
  source_ne_empty : a ≠ ""
  target_ne_empty : b ≠ ""
  ends_ne : a ≠ b
  nodes : graph.member? "nodes" = some (.arr [m, n]) ∨ graph.member? "nodes" = some (.arr [n, m])
  edges : graph.member? "edges" = some (.arr [e])
  tickets : (graph.member? "ambiguities").getD (.arr []) = .arr []

namespace IsLink

variable {graph m n e : Json} {a b kind A B : String}

/-- In whichever order its nodes stand, both ends of the edge have their kinds. -/
lemma exists_nodes (h : IsLink graph m n e a b kind A B) :
    ∃ nodes, graph.member? "nodes" = some (.arr nodes) ∧ (∀ o ∈ nodes, o = m ∨ o = n) ∧
      lastKind? nodes a = some (.str A) ∧ lastKind? nodes b = some (.str B) := by
  have hm (nodes : List Json) (id : String) := lastKind?_concat nodes h.source id
  have hn (nodes : List Json) (id : String) := lastKind?_concat nodes h.target id
  rcases h.nodes with hnodes | hnodes
  · refine ⟨[m, n], hnodes, by simp, ?_, ?_⟩
    · calc lastKind? ([m] ++ [n]) a = lastKind? ([] ++ [m]) a := by
            rw [hn, if_neg h.ends_ne, nil_append]
        _ = some (.str A) := by rw [hm, if_pos rfl]
    · exact (hn [m] b).trans (if_pos rfl)
  · refine ⟨[n, m], hnodes, by simp [or_comm], ?_, ?_⟩
    · exact (hm [n] a).trans (if_pos rfl)
    · calc
        lastKind? ([n] ++ [m]) b = lastKind? ([] ++ [n]) b := by
          rw [hm, if_neg h.ends_ne.symm, nil_append]
        _ = some (.str B) := by rw [hn, if_pos rfl]

/-- The check of the graph completes, and what it says about edges is what it says about this one.
-/
lemma check (h : IsLink graph m n e a b kind A B) (hA : A ≠ "") (hB : B ≠ "")
    (kinds : List (String × Json)) (rules : EdgeRules) (file : String) {P : Prop}
    (hedge : ∀ types, types.get? (.str a) = some (.str A) →
      types.get? (.str b) = some (.str B) → ∃ errors,
        checkEdge ⟨kinds.map Prod.fst, rules⟩ types e = .ok errors ∧ (P ↔ errors = [])) :
    ∃ r, Conformance.check (.obj kinds) rules file graph = .ok r ∧
      (P ↔ r.errors.filter isAboutEdge = []) := by
  obtain ⟨nodes, hnodes, hmem, hlastA, hlastB⟩ := h.exists_nodes
  have hnamed : ∀ o ∈ nodes, ∃ id kind, Named o id kind ∧ id ≠ "" ∧ kind ≠ "" := by
    intro o ho
    rcases hmem o ho with rfl | rfl
    · exact ⟨a, A, h.source, h.source_ne_empty, hA⟩
    · exact ⟨b, B, h.target, h.target_ne_empty, hB⟩
  obtain ⟨⟨types, nodeErrors⟩, htypes⟩ : ∃ found, checkNodes ⟨kinds.map Prod.fst, rules⟩ nodes =
    .ok found := by
    refine checkNodes_succeeds _ fun o ho ↦ ?_
    obtain ⟨id, kind, ho, hid, -⟩ := hnamed o ho
    exact ho.legible hid
  have hkinds (id : String) : types.get? (.str id) = lastKind? nodes id := by
    rw [← kindUnder_of_named fun o ho ↦ (hnamed o ho).imp fun _ ↦ .imp fun _ ↦ .imp_right And.left]
    refine (checkNodes_spec htypes).2 (fun o ho ↦ ?_) _
    obtain ⟨id, kind, ho, hid, hkind⟩ := hnamed o ho
    rw [ho.identifier_eq hid, ho.kindOf_eq]
    exact ⟨truthy_str.2 hid, truthy_str.2 hkind⟩
  obtain ⟨errors, herrors, hP⟩ :=
    hedge types ((hkinds a).trans hlastA) ((hkinds b).trans hlastB)
  have hobject := isObject_of_member? hnodes
  have htickets : graph.getD "ambiguities" (.arr []) = .ok (.arr []) :=
    getD_eq_ok.2 ⟨hobject, h.tickets⟩
  have hrun : checkEdges ⟨kinds.map Prod.fst, rules⟩ types [e] = .ok errors := by
    rw [checkEdges, foldlM_cons, herrors]
    rfl
  refine ⟨⟨file, nodes.length, 1, 0, nodeErrors ++ errors ++ [], []⟩, ?_, ?_⟩
  · simp only [Conformance.check, bind_eq_ok, pure_eq_ok, getD_of_member? hnodes,
      getD_of_member? h.edges, htickets]
    exact ⟨_, rfl, _, rfl, _, rfl, _, rfl, _, rfl, _, rfl, _, rfl, _, rfl, _,
      htypes, _, rfl, errors, hrun, _, rfl, _, rfl, rfl⟩
  · have hnone : nodeErrors.filter isAboutEdge = [] := by
      refine filter_eq_nil_iff.2 fun error herror ↦ ?_
      rw [not_isAboutEdge_of_checkNodes htypes error herror]
      exact Bool.false_ne_true
    have hall : errors.filter isAboutEdge = errors :=
      filter_eq_self.2 (isAboutEdge_of_checkEdge herrors)
    rw [hP, append_nil, filter_append, hnone, hall, nil_append]

end IsLink

/-- The builders for scripts, markup and stylesheets are allowed the same edges, whatever else they
are set up with; and an edge that they are allowed is one with which the check finds no fault. -/
theorem builders_and_check_agree {categories : List (String × Json)} (h : Orderly categories)
    {kind A B : String} (hkind : kind ≠ "") (hA : A ≠ "") (hB : B ≠ "")
    (mapping kinds : List (String × Json)) :
    ∃ scripts rules types allowed, Schema.ofDocuments (.obj mapping)
      (.obj categories) = .ok scripts ∧ EdgeRules.ofDocument (.obj categories) = .ok rules ∧
      CoreSchema.edgeTypesOf (.obj categories) = .ok types ∧
      scripts.rules.allows (.str kind) (.str A) (.str B) = .ok allowed ∧
      rules.allows (.str kind) (.str A) (.str B) = .ok allowed ∧
      (∀ instructions mapping setup,
        MarkupGraph.Setup.ofDocuments instructions mapping rules = .ok setup →
        setup.outline.rules.allows (.str kind) (.str A) (.str B) = .ok allowed) ∧
      (∀ instructions mapping o, StyleGraph.outlineOf instructions mapping rules = .ok o →
        o.rules.allows (.str kind) (.str A) (.str B) = .ok allowed) ∧
      ∀ file graph m n e a b, IsLink graph m n e a b kind A B →
        ∃ r, Conformance.check (.obj kinds) types file graph = .ok r ∧
          (allowed = true ↔ r.errors.filter isAboutEdge = []) := by
  obtain ⟨rules, hrules⟩ : ∃ rules, EdgeRules.ofDocument (.obj categories) = .ok rules := ⟨_, rfl⟩
  obtain ⟨scripts, hscripts, hsame⟩ : ∃ scripts,
      Schema.ofDocuments (.obj mapping) (.obj categories) = .ok scripts ∧ scripts.rules = rules :=
    ⟨_, rfl, Except.ok.inj hrules⟩
  have htextual : ∀ e ∈ rules, isTextual e.2 = true := fun _ ↦ h.isTextual_of_mem hrules
  obtain ⟨allowed, hallowed⟩ := exists_allows htextual kind A B
  refine ⟨scripts, rules, rules, allowed, hscripts, hrules, h.edgeTypesOf.trans hrules,
    hsame ▸ hallowed, hallowed, ?_, ?_, ?_⟩
  · intro instructions mapping setup hsetup
    rw [rules_of_ofDocuments hsetup, hallowed]
  · intro instructions mapping o ho
    rw [rules_of_outlineOf ho, hallowed]
  · intro file graph m n e a b hlink
    apply hlink.check hA hB kinds rules file
    intro types htypeA htypeB
    exact checkEdge_iff_allows htextual hlink.edge hkind hlink.source_ne_empty hlink.target_ne_empty
      htypeA htypeB hallowed

/-- Two categories that list one kind of edge, the second without a kind that the first has. -/
def overridden : List (String × Json) :=
  [("_meta", .obj [("note", .str "from")]),
    ("calls", .obj [("calls", .obj [("from", .arr [.str "File", .str "Function"]),
      ("to", .arr [.str "Function"])])]),
    ("other", .obj [("calls",
      .obj [("from", .arr [.str "Function"]), ("to", .arr [.str "Function"])])])]

/-- A graph with an edge that only the first of the two categories allows. -/
def crossing : Json :=
  .obj [("nodes", .arr [.obj [("id", .str "a"), ("node_type", .str "File")],
      .obj [("id", .str "b"), ("node_type", .str "Function")]]),
    ("edges", .arr [.obj [("edge", .str "calls"), ("from", .str "a"), ("to", .str "b")]])]

theorem builders_and_check_agree_overridden :
    Orderly overridden ∧ ∃ rules types, EdgeRules.ofDocument (.obj overridden) = .ok rules ∧
      rules.allows (.str "calls") (.str "File") (.str "Function") = .ok false ∧
      CoreSchema.edgeTypesOf (.obj overridden) = .ok types ∧
      ∃ r, Conformance.check (.obj []) types "fragment.json" crossing = .ok r ∧
        r.errors.filter isAboutEdge ≠ [] := by
  have horderly : Orderly overridden := ⟨by decide, by decide⟩
  have hcalls : "calls" ≠ "" := by decide
  obtain ⟨scripts, rules, types, allowed, -, hrules, htypes, -, hallowed, -, -, hcheck⟩ :=
    builders_and_check_agree horderly hcalls (A := "File") (B := "Function") (by decide)
    (by decide) [] []
  have hlink : IsLink crossing _ _ _ "a" "b" "calls" "File" "Function" :=
    ⟨⟨rfl, rfl, rfl⟩, ⟨rfl, rfl, rfl⟩, ⟨rfl, rfl, rfl⟩, by decide, by decide, by decide,
      .inl rfl, rfl, rfl⟩
  obtain ⟨r, hr, hiff⟩ := hcheck "fragment.json" _ _ _ _ _ _ hlink
  have hfalse : allowed = false := by
    obtain rfl := Except.ok.inj hrules
    exact (Except.ok.inj hallowed).symm
  refine ⟨horderly, rules, types, hrules, hfalse ▸ hallowed, htypes, r, hr, fun hnil ↦ ?_⟩
  rw [hfalse] at hiff
  exact Bool.false_ne_true (hiff.2 hnil)

end CodeAtlas.Build
