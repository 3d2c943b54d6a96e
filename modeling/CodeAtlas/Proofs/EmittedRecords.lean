import CodeAtlas.Proofs.MarkupTraces

/-!
# What a sketch records

A sketch is changed by calls: for a node, for an edge, for a ticket, and for another file to be
read. In any order they leave no two nodes of one id and no edge twice, and every edge was asked for
and permitted.
-/

namespace CodeAtlas.Build

open List Fallible Stepwise Json

namespace Sketch

variable {edge sourceType targetType : Json} {fileKind source target : String}
  {key : Key} {o : Outline}
variable {details : List (String × Json)} {s s' : Sketch}

def detailNames : List String := ["line_start", "line_end", "attributes", "hash", "file_hash"]

lemma areDetails_of_subset (h : Table.keys details ⊆ detailNames) : AreDetails details := by
  intro name hname hmem
  have hnone : ∀ name ∈ ["id", "node_type", "type", "name", "file_path"], name ∉ detailNames :=
    by decide
  exact hnone name hname (h hmem)

inductive Call
  | node (type : Json) (name confidence : String) (scope : Json) (details : List (String × Json))
      (hdetails : Table.keys details ⊆ detailNames)
  | edge (edge : Json) (source target : String) (sourceType targetType : Json)
  | ticket (kind : String) (expression : Json) (reason : String) (scope : Json)
      (confidence : String)
  | file (file fileId : Option String)

def Call.run (o : Outline) (fileKind : String) : Call → Sketching Unit
  | .node type name confidence scope details _ => do
    let _ ← emitNode fileKind type name confidence scope details
  | .edge e source target sourceType targetType => emitEdge o e source target sourceType targetType
  | .ticket kind expression reason scope confidence =>
    emitTicket o kind expression reason scope confidence
  | .file name id => modify fun s ↦ { s with file := name, fileId := id }

/-- The sketch after some calls. Where one fails, what it has done so far stays. -/
def reached (o : Outline) (fileKind : String) (issued : Nat) (calls : List Call) : Sketch :=
  calls.foldl (fun s call ↦ after (call.run o fileKind) s) { draft := { issued } }

/-- The kind of an edge and its two ends. -/
def triple? (e : Json) : Option (Key × String × String) := do
  let edge ← e.member? "edge"
  return (← edge.key?, ← (← e.member? "from").asStr?, ← (← e.member? "to").asStr?)

lemma triple?_edge (hkey : edge.key? = some key) (source target : String) :
    triple? (.obj [("edge", edge), ("from", .str source), ("to", .str target)]) =
      some (key, source, target) := by
  show (edge.key?.bind fun key ↦ some (key, source, target)) = _
  rw [hkey]
  rfl

/-- A call for an edge that is permitted. -/
def Call.Justifies (o : Outline) (e : Json) : Call → Prop
  | .edge kind source target sourceType targetType =>
    e = .obj [("edge", kind), ("from", .str source), ("to", .str target)] ∧
      ∃ key, Permitted o kind sourceType targetType key
  | _ => False

/-- The taken ids and edges are those of the records, each once, and a call justifies every edge. -/
structure Recorded (o : Outline) (calls : List Call) (s : Sketch) : Prop where
  ids : s.draft.nodes.map (·.member? "id") = s.nodeIds.reverse.map fun id ↦ some (.str id)
  distinctIds : s.nodeIds.Nodup
  triples : s.draft.edges.map triple? = s.edgeKeys.reverse.map some
  distinctTriples : s.edgeKeys.Nodup
  justified : ∀ e ∈ s.draft.edges, ∃ call ∈ calls, call.Justifies o e

namespace Recorded

variable {calls calls' : List Call}

lemma mono (h : Recorded o calls s) (hsub : calls ⊆ calls') : Recorded o calls' s := by
  refine { h with justified := fun e he ↦ ?_ }
  obtain ⟨call, hcall, hjustifies⟩ := h.justified e he
  exact ⟨call, hsub hcall, hjustifies⟩

lemma nodup_ids (h : Recorded o calls s) : (s.draft.nodes.map (·.member? "id")).Nodup := by
  rw [h.ids]
  refine (nodup_reverse.2 h.distinctIds).map fun id id' heq ↦ ?_
  exact str.inj (Option.some.inj heq)

lemma nodup_triples (h : Recorded o calls s) : (s.draft.edges.map triple?).Nodup := by
  rw [h.triples]
  exact (nodup_reverse.2 h.distinctTriples).map (Option.some_injective _)

lemma count_triple (h : Recorded o calls s) (hmem : (key, source, target) ∈ s.edgeKeys) :
    (s.draft.edges.map triple?).count (some (key, source, target)) = 1 := by
  refine count_eq_one_of_mem h.nodup_triples ?_
  rw [h.triples]
  exact mem_map.2 ⟨_, mem_reverse.2 hmem, rfl⟩

lemma addNode (h : Recorded o calls s) (type : Json) (name id confidence : String)
    (hdetails : AreDetails details) :
    Recorded o calls (s.addNode type name id confidence details) := by
  rw [Sketch.addNode]
  split
  · exact h
  next hnew =>
    have hid : (nodeDocument type name id confidence details).member? "id" = some (.str id) := by
      rw [member?_nodeDocument hdetails (by simp)]
      rfl
    refine { h with ids := ?_, distinctIds := nodup_cons.2 ⟨by simpa using hnew, h.distinctIds⟩ }
    show (s.draft.nodes ++ [_]).map _ = _
    rw [map_append, h.ids, reverse_cons, map_append, map_singleton, hid]
    rfl

lemma asked (h : Recorded o calls s)
    (hcall : .edge edge source target sourceType targetType ∈ calls)
    (hasked : Asked o edge source target sourceType targetType s s') : Recorded o calls s' := by
  cases hasked with
  | refused _ _ _ hticket =>
    obtain ⟨t, resolver, -, -, -, -, rfl⟩ := hticket
    exact { h with }
  | there => exact h
  | added hpermitted hnew =>
    refine ⟨h.ids, h.distinctIds, ?_, nodup_cons.2 ⟨hnew, h.distinctTriples⟩, forall_mem_append.2
      ⟨h.justified, forall_mem_singleton.2 ⟨_, hcall, rfl, _, hpermitted⟩⟩⟩
    show (s.draft.edges ++ [_]).map _ = _
    rw [map_append, h.triples, reverse_cons, map_append, map_singleton,
      triple?_edge hpermitted.keyed]
    rfl

end Recorded

/-- A call for an edge that fails records nothing; a number for a ticket may be spent. -/
lemma fails_emitEdge (o : Outline) (edge : Json) (source target : String)
    (sourceType targetType : Json)
    (s : Sketch) : Fails (emitEdge o edge source target sourceType targetType) s fun s' ↦
      s' = s ∨ s' = { s with draft := s.draft.issue } := by
  have hticket (kind : String) (expression : Json) (reason : String) (scope : Json)
    (confidence : String) :
      Fails (emitTicket o kind expression reason scope confidence) s fun s' ↦
        s' = s ∨ s' = { s with draft := s.draft.issue } :=
    .modify_bind (.lift_bind (.inr rfl) fun _ _ ↦ .of_modify _)
  refine .lift_bind (.inl rfl) fun key _ ↦ .get_bind ?_
  split
  · exact hticket _ _ _ _ _
  · refine .lift_bind (.inl rfl) fun allowed _ ↦ ?_
    split
    · exact hticket _ _ _ _ _
    · split
      · exact .of_modify _
      · exact .pure _

lemma Recorded.step {calls : List Call} {call : Call} (h : Recorded o calls s)
    (hcall : call ∈ calls) : Recorded o calls (after (call.run o fileKind) s) := by
  cases call with
  | node type name confidence scope details hdetails =>
    exact h.addNode type name _ confidence (areDetails_of_subset hdetails)
  | edge edge source target sourceType targetType =>
    cases hrun : emitEdge o edge source target sourceType targetType s with
    | ok a s' =>
      rw [Call.run, after_of_ok hrun]
      exact h.asked hcall ((ends_asked o edge source target sourceType targetType s).1 a s' hrun)
    | error e s' =>
      rw [Call.run, after_of_error hrun]
      rcases fails_emitEdge o edge source target sourceType targetType s e s' hrun with rfl | rfl
      · exact h
      · exact { h with }
  | ticket kind expression reason scope confidence =>
    refine keeps_emitTicket_of (P := Recorded o calls) (fun s h ↦ ?_)
      (fun s _ _ h ↦ ?_) o kind expression reason scope confidence s h
    · exact { h with }
    · exact { h with }
  | file file fileId => exact { h with }

lemma recorded_reached (o : Outline) (fileKind : String) (issued : Nat) (calls : List Call) :
    Recorded o calls (reached o fileKind issued calls) := by
  induction calls using reverseRecOn with
  | nil => exact ⟨rfl, .nil, rfl, .nil, by simp [reached]⟩
  | append_singleton calls call ih =>
    rw [reached, foldl_append]
    exact (ih.mono (subset_append_left _ _)).step (by simp)

end Sketch

/-! ## The edges that mappings name -/

/-- A rule names a kind of edge under one of some words. -/
def NamedIn (words : List String) (rule : Json) (key : Key) : Prop :=
  ∃ word ∈ words, ∃ v, rule.member? word = some v ∧ v.key? = some key

variable {key : Key} {known known' : List Key} {mapping rule : Json}

lemma mem_ifNew {k : Key} : key ∈ (if known.contains k then known else known ++ [k]) ↔
    key ∈ known ∨ key = k := by
  split
  next hold =>
    refine (or_iff_left_of_imp ?_).symm
    rintro rfl
    exact contains_iff_mem.1 hold
  next => rw [mem_append, mem_singleton]

lemma namedIn_singleton {word : String} {v : Json} {k : Key} (hv : rule.member? word = some v)
    (hk : v.key? = some k) : NamedIn [word] rule key ↔ key = k := by
  simp [NamedIn, hv, hk, eq_comm]

namespace MarkupGraph

lemma mem_knownEdges {rules : List Json} (h : knownEdges known rules = .ok known') :
    key ∈ known' ↔ key ∈ known ∨ ∃ rule ∈ rules, NamedIn ["emits_edge"] rule key := by
  induction rules generalizing known with
  | nil =>
    cases h
    simp
  | cons rule rest ih =>
    simp only [knownEdges, bind_eq_ok, need_eq_ok, key_eq_ok] at h
    obtain ⟨v, hv, k, hk, h⟩ := h
    rw [ih h, mem_ifNew, exists_mem_cons_iff, namedIn_singleton hv hk, or_assoc]

lemma mem_knownEdgesOf (h : knownEdgesOf mapping = .ok known) :
    key ∈ known ↔ ∃ rule ∈ rulesOf mapping, NamedIn ["emits_edge"] rule key := by
  simp only [knownEdgesOf, bind_eq_ok, getD_eq_ok] at h
  obtain ⟨listed, ⟨-, rfl⟩, rules, hrules, byAttribute, hby, byTag, ⟨-, hbyTag⟩, tags,
    htags, hrun⟩ := h
  have hfold : key ∈ known ↔ key ∈ byAttribute ∨
      ∃ rule ∈ tags.flatMap fun e ↦ itemsOf e.2, NamedIn ["emits_edge"] rule key := by
    refine foldlM_invariant (fun met known ↦ key ∈ known ↔ key ∈ byAttribute ∨
      ∃ rule ∈ met.flatMap fun e ↦ itemsOf e.2, NamedIn ["emits_edge"] rule key) ?_ (by simp) hrun
    intro met known e known' hmet he
    obtain ⟨rules, hrules, he⟩ := bind_eq_ok.1 he
    rw [mem_knownEdges he, hmet, flatMap_append, flatMap_singleton, itemsOf_eq hrules]
    simp only [mem_append, or_and_right, exists_or, or_assoc]
  rw [hfold, mem_knownEdges hby, rulesOf, itemsOf_eq hrules, hbyTag, members_of_ok htags]
  simp only [not_mem_nil, false_or, mem_append, or_and_right, exists_or]

end MarkupGraph

namespace StyleGraph

lemma mem_addKnown {word : String} (h : addKnown word rule known = .ok known') :
    key ∈ known' ↔ key ∈ known ∨ NamedIn [word] rule key := by
  obtain ⟨held, hheld, h⟩ := bind_eq_ok.1 h
  cases held with
  | false =>
    obtain rfl := pure_eq_ok.1 h
    simp [NamedIn, member?_of_holds hheld]
  | true =>
    simp only [if_true, bind_eq_ok, need_eq_ok, key_eq_ok, pure_eq_ok] at h
    obtain ⟨v, hv, k, hk, rfl⟩ := h
    rw [mem_ifNew, namedIn_singleton hv hk]

lemma mem_knownEdgesOf (h : knownEdgesOf mapping = .ok known) :
    key ∈ known ↔ ∃ rule ∈ rulesOf mapping, NamedIn ["emit_edge", "defines_edge"] rule key := by
  simp only [knownEdgesOf, bind_eq_ok] at h
  obtain ⟨patterns, hpatterns, members, hmembers, hrun⟩ := h
  rw [rulesOf_eq hpatterns hmembers]
  refine foldlM_invariant (fun met known ↦ key ∈ known ↔
    ∃ rule ∈ met.map Prod.snd, NamedIn ["emit_edge", "defines_edge"] rule key) ?_ (by simp) hrun
  intro met known e known' hmet he
  obtain ⟨middle, hmiddle, he⟩ := bind_eq_ok.1 he
  rw [mem_addKnown he, mem_addKnown hmiddle, hmet]
  simp [NamedIn, or_and_right, exists_or, or_assoc]

end StyleGraph

/-! ## Calls under the documents of a language -/

/-- A language whose files are sketched. -/
inductive Dialect
  | markup
  | styles

namespace Dialect

open Sketch

def fileKind : Dialect → String
  | markup => "Template"
  | styles => "Stylesheet"

def outline (instructions mapping : Json) (rules : EdgeRules) : Dialect → Except Fault Outline
  | markup => return (← MarkupGraph.Setup.ofDocuments instructions mapping rules).outline
  | styles => StyleGraph.outlineOf instructions mapping rules

/-- The mapping names a kind of edge in one of its rules. -/
def Names (mapping : Json) (key : Key) : Dialect → Prop
  | markup => ∃ rule ∈ MarkupGraph.rulesOf mapping, NamedIn ["emits_edge"] rule key
  | styles => ∃ rule ∈ StyleGraph.rulesOf mapping, NamedIn ["emit_edge", "defines_edge"] rule key

variable {d : Dialect} {instructions : Json} {rules : EdgeRules} {o : Outline}

lemma outline_spec (h : d.outline instructions mapping rules = .ok o) :
    o.rules = rules ∧ ∀ key, key ∈ o.known ↔ d.Names mapping key := by
  cases d with
  | markup =>
    simp only [outline, MarkupGraph.Setup.ofDocuments, bind_eq_ok, pure_eq_ok] at h
    obtain ⟨setup, ⟨known, hknown, policy, -, marks, -, rfl⟩, rfl⟩ := h
    exact ⟨rfl, fun _ ↦ MarkupGraph.mem_knownEdgesOf hknown⟩
  | styles =>
    simp only [outline, StyleGraph.outlineOf, bind_eq_ok, pure_eq_ok] at h
    obtain ⟨known, hknown, rfl⟩ := h
    exact ⟨rfl, fun _ ↦ StyleGraph.mem_knownEdgesOf hknown⟩

/-- What is permitted is what the mapping names and the schema allows. After any calls no two nodes
have one id, the edges are told apart by what is recorded of them, and a call justifies each. The
next call for an edge leaves one ticket and no edge if it is not permitted; else it leaves no
ticket, and the edge is there once. It comes to its end unless a document cannot be read, and then
it leaves neither. A call for a node leaves the nodes that are there as they are. -/
theorem records_follow_calls (h : d.outline instructions mapping rules = .ok o) (issued : Nat)
    (calls : List Call) {s : Sketch} (hs : reached o d.fileKind issued calls = s) :
    (o.rules = rules ∧ ∀ key, key ∈ o.known ↔ d.Names mapping key) ∧
    (s.draft.nodes.map (·.member? "id")).Nodup ∧ (s.draft.edges.map triple?).Nodup ∧
    s.draft.edges.map triple? = s.edgeKeys.reverse.map some ∧
    (∀ e ∈ s.draft.edges, ∃ call ∈ calls, call.Justifies o e) ∧
    (∀ edge source target sourceType targetType,
      Ends (Legible o edge sourceType targetType)
      (emitEdge o edge source target sourceType targetType) s
        (fun _ s' ↦ ∃ key, edge.key? = some key ∧
          ((key ∉ o.known ∨ o.rules.allows edge sourceType targetType = .ok false) ∧
              s'.draft.edges = s.draft.edges ∧
              (∃ ticket, s'.draft.ambiguities = s.draft.ambiguities ++ [ticket]) ∨
            Permitted o edge sourceType targetType key ∧ s'.draft.ambiguities =
            s.draft.ambiguities ∧
              (s'.draft.edges.map triple?).count (some (key, source, target)) = 1)) ∧
      Fails (emitEdge o edge source target sourceType targetType) s fun s' ↦
        s'.draft.edges = s.draft.edges ∧ s'.draft.ambiguities = s.draft.ambiguities) ∧
    ∀ type name confidence scope details, ∃ id s',
      emitNode d.fileKind type name confidence scope details s = .ok id s' ∧
        s.draft.nodes <+: s'.draft.nodes := by
  have hrecorded : Recorded o calls s := hs ▸ recorded_reached o d.fileKind issued calls
  refine ⟨outline_spec h, hrecorded.nodup_ids, hrecorded.nodup_triples, hrecorded.triples,
    hrecorded.justified,
    fun edge source target sourceType targetType ↦ ⟨?_, ?_⟩,
    fun type name confidence scope details ↦ ?_⟩
  · refine (ends_asked o edge source target sourceType targetType s).imp id fun _ s' _ hasked ↦ ?_
    -- The call counts among those before it, so that the records are distinct after it as well.
    have hafter : Recorded o (.edge edge source target sourceType targetType :: calls) s' :=
      (hrecorded.mono (subset_cons_self _ _)).asked mem_cons_self hasked
    cases hasked with
    | refused hkey hgate _ hticket =>
      obtain ⟨t, resolver, -, -, -, -, rfl⟩ := hticket
      exact ⟨_, hkey, .inl ⟨hgate, rfl, _, rfl⟩⟩
    | there hpermitted hthere =>
      exact ⟨_, hpermitted.keyed, .inr ⟨hpermitted, rfl, hafter.count_triple hthere⟩⟩
    | added hpermitted =>
      exact ⟨_, hpermitted.keyed, .inr ⟨hpermitted, rfl, hafter.count_triple mem_cons_self⟩⟩
  · intro e s' hrun
    rcases fails_emitEdge o edge source target sourceType targetType s e s' hrun with rfl | rfl
    · exact ⟨rfl, rfl⟩
    · exact ⟨rfl, rfl⟩
  · refine ⟨_, _, rfl, ?_⟩
    show _ <+: (s.addNode type name _ confidence details).draft.nodes
    rw [Sketch.addNode]
    split
    · exact prefix_refl _
    · exact prefix_append _ _

/-- A page with a form, which is asked for twice, and an edge that the mapping does not name. -/
def formCalls : List Call :=
  [.file (some "a.html") (some "a.html"), .node "Template" "a.html" "structural"
    .null [] (by decide), .node "Route" "/x" "heuristic" .null [("line_start", .int 1)] (by decide),
    .edge "submits_form" "a.html" "a.html::Route::/x" "Template" "Route",
    .edge "submits_form" "a.html" "a.html::Route::/x" "Template" "Route",
    .edge "calls" "a.html" "a.html::Route::/x" "Template" "Route"]

theorem records_follow_calls_form :
    ∃ o s, markup.outline Catalog.htmlInstructions Catalog.htmlMapping
    coreRules = .ok o ∧ reached o markup.fileKind 0 formCalls = s ∧ s.draft.nodes.length = 2 ∧
    s.draft.ambiguities.length = 1 ∧
    s.draft.edges.map triple? = [some (.str "submits_form", "a.html", "a.html::Route::/x")] ∧
    (s.draft.nodes.map (·.member? "id")).Nodup ∧ ∀ e ∈ s.draft.edges, ∃ call ∈ formCalls,
    call.Justifies o e := by
  have ho : markup.outline Catalog.htmlInstructions Catalog.htmlMapping coreRules = .ok _ := rfl
  obtain ⟨-, hids, -, -, hjustified, -⟩ := records_follow_calls ho 0 formCalls rfl
  exact ⟨_, _, rfl, rfl, by decide +kernel, by decide +kernel, by decide +kernel, hids, hjustified⟩

end Dialect

end CodeAtlas.Build
