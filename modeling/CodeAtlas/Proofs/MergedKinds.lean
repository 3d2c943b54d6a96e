import CodeAtlas.Catalog.Documents
import CodeAtlas.Proofs.MergedGraph
import CodeAtlas.Proofs.Redirection

/-!
# The kinds of merged nodes

A node may tell its kind under two names. The check prefers the one and merging the other, so
merging may write a kind into a node that the check has not looked at. Here is when the kinds of a
merged graph are those of the schema by which its fragments have passed: they are if no node tells
two different kinds.
-/

namespace CodeAtlas.Graph

open Fallible Conformance Merge Json Fragment

variable {n nodeSchema : Json} {edgeTypes : Table String Json} {f : Fragment}

/-- Both kinds that a node may tell are the same, if it tells both. -/
def Unanimous (n : Json) : Prop :=
  (field n "node_type").truthy = true → (field n "type").truthy = true →
    field n "node_type" = field n "type"

instance decidableUnanimous (n : Json) : Decidable (Unanimous n) :=
  inferInstanceAs (Decidable (_ → _))

/-- Merging takes for the kind of a node what the check does, if there is only one to choose. -/
lemma Unanimous.kindOf_eq (h : Unanimous n) (hkind : (Conformance.kindOf n).truthy = true) :
    Merge.kindOf n = Conformance.kindOf n := by
  change ((field n "type").orElse (field n "node_type")).truthy = true at hkind
  change ((field n "node_type").orElse (field n "type")).orElse _ =
    (field n "type").orElse (field n "node_type")
  cases hnew : (field n "node_type").truthy with
  | true =>
    rw [orElse_of_truthy hnew, orElse_of_truthy hnew]
    cases hold : (field n "type").truthy with
    | true => rw [orElse_of_truthy hold, h hnew hold]
    | false => rw [orElse_of_not_truthy hold]
  | false =>
    rw [orElse_of_not_truthy hnew]
    cases hold : (field n "type").truthy with
    | true => rw [orElse_of_truthy hold, orElse_of_truthy hold]
    | false =>
      rw [orElse_of_not_truthy hold, hnew] at hkind
      cases hkind

lemma isObject_of_truthy {v : Json} {name : String} (h : (field v name).truthy = true) :
    v.IsObject := by
  cases hm : v.member? name with
  | none =>
    rw [field, hm] at h
    cases h
  | some w => exact isObject_of_member? hm

lemma isObject_of_nodeFits {kinds : List String} (h : NodeFits kinds n) : n.IsObject := by
  have htruthy := h.1
  change ((field n "id").orElse (field n "name")).truthy = true at htruthy
  cases hid : (field n "id").truthy with
  | true => exact isObject_of_truthy hid
  | false =>
    rw [orElse_of_not_truthy hid] at htruthy
    exact isObject_of_truthy htruthy

/-- The id and the name of a node are texts, if it has them. -/
def HasTextLabels (n : Json) : Prop :=
  ∀ name ∈ ["id", "name"], ((n.member? name).all fun v ↦ v.asStr?.isSome) = true

instance decidableHasTextLabels (n : Json) : Decidable (HasTextLabels n) :=
  inferInstanceAs (Decidable (∀ _ ∈ _, _))

lemma HasTextLabels.exists_getD (h : HasTextLabels n) (name : String)
    (hname : name ∈ ["id", "name"])
    (default : String) : ∃ s, (n.member? name).getD default = .str s := by
  have hall := h name hname
  cases hm : n.member? name with
  | none => exact ⟨default, rfl⟩
  | some v =>
    rw [hm] at hall
    cases v with
    | str s => exact ⟨s, rfl⟩
    | _ => cases hall

lemma Fragment.Passes.isMergeable (h : f.Passes nodeSchema edgeTypes)
    (htexts : ∀ n ∈ f.nodes, HasTextLabels n) : f.IsMergeable := by
  obtain ⟨g, r, hg, hr, hstatus⟩ := h
  obtain ⟨nodes, edges, tickets, hnodes, hedges, htickets, hpasses⟩ := check_spec hr
  obtain ⟨hnode, hedge, -⟩ := hpasses.1 (status_eq_pass.1 hstatus)
  rw [nodes_of_ok hg hnodes] at htexts
  refine ⟨⟨g, tickets, hg, ?_, ?_, htickets⟩, ?_, ?_⟩
  · rw [hnodes, nodes_of_ok hg hnodes]
  · rw [hedges, edges_of_ok hg hedges]
  · rw [nodes_of_ok hg hnodes]
    intro n hn
    obtain ⟨name, hname⟩ := (htexts n hn).exists_getD "name" (by simp) "Unnamed"
    exact ⟨isObject_of_nodeFits (hnode n hn), .str name, by rw [nameOf, hname]; rfl⟩
  · rw [edges_of_ok hg hedges]
    intro e he
    obtain ⟨kind, rule, hkind, hne, -, ⟨htruthy, from', _, hfrom, -⟩, -, to', _, hto, -⟩ :=
      hedge e he
    refine ⟨isObject_of_truthy htruthy, (.str kind, from', to'),
      linkKey?_eq_some.2 ⟨?_, hfrom, hto⟩⟩
    rw [field] at hkind
    simp only [written, hkind, orElse_of_truthy (truthy_str.2 hne)]
    rfl

def IsKindIn (nodeSchema v : Json) : Prop := ∃ kind ∈ nodeSchema.members.map Prod.fst, v = .str kind

lemma Fragment.Passes.isKindIn (h : f.Passes nodeSchema edgeTypes) (hn : n ∈ f.nodes)
    (hsame : Unanimous n) : IsKindIn nodeSchema (Merge.kindOf n) := by
  obtain ⟨g, r, hg, hr, hstatus⟩ := h
  obtain ⟨nodes, edges, tickets, hnodes, -, -, hpasses⟩ := check_spec hr
  rw [nodes_of_ok hg hnodes] at hn
  obtain ⟨-, kind, hmem, hkind, hne⟩ := (hpasses.1 (status_eq_pass.1 hstatus)).node n hn
  exact ⟨kind, hmem, by rw [hsame.kindOf_eq (hkind ▸ truthy_str.2 hne), hkind]⟩

/-- The kinds of filed nodes are those that merging takes from the last node of each canonical id.
-/
lemma Merge.NodesFiled.forall_kinds_iff {ns : List Json} {filed : Nodes} (h : NodesFiled ns filed)
    (P : Json → Prop) : (∀ v ∈ filed.byId.values, P (field v "node_type")) ↔
      ∀ id n, holder? ns id = some n → P (Merge.kindOf n) := by
  constructor
  · intro hall id n hn
    obtain ⟨hmem, hid⟩ := of_holder? hn
    obtain ⟨v, hv⟩ := Table.exists_of_mem_keys ((h.mem_keys (.str id)).2 ⟨n, hmem, id, hid, rfl⟩)
    obtain ⟨n', hn', hkind⟩ := h.typed id v hv
    cases hn.symm.trans hn'
    have hknown := hall v (List.mem_map.2 ⟨_, Table.mem_of_get? hv, rfl⟩)
    rwa [field, hkind] at hknown
  · intro hall v hv
    obtain ⟨⟨k, v⟩, hentry, rfl⟩ := List.mem_map.1 hv
    obtain ⟨id, rfl, -⟩ := h.labelled k v hentry
    obtain ⟨n, hn, hkind⟩ := h.typed id v (Table.get?_of_mem h.distinct hentry)
    rw [field, hkind]
    exact hall id n hn

/-- Fragments that pass the check are merged, and the last node of each canonical id gets the kind
that merging prefers. So all merged nodes are of kinds of the schema just if these kinds are; which
they are if no node tells two different kinds. -/
theorem merged_kinds_known_iff {nodeSchema : Json} {edgeTypes : Table String Json}
    {fragments : List Fragment} (hpass : ∀ f ∈ fragments, f.Passes nodeSchema edgeTypes)
    (htexts : ∀ n ∈ allNodes fragments, HasTextLabels n) :
    ∃ merged nodes, merge fragments = .ok merged ∧ nodesOf merged = .ok nodes ∧
      ((∀ v ∈ nodes, IsKindIn nodeSchema (field v "node_type")) ↔
        ∀ id n, holder? (allNodes fragments) id = some n → IsKindIn nodeSchema (Merge.kindOf n)) ∧
      ((∀ n ∈ allNodes fragments, Unanimous n) →
        ∀ v ∈ nodes, IsKindIn nodeSchema (field v "node_type")) := by
  have hids : ∀ n ∈ allNodes fragments, ∃ id, rawId n = .str id :=
    fun n hn ↦ (htexts n hn).exists_getD "id" (by simp) ""
  have hmergeable : ∀ f ∈ fragments, f.IsMergeable := fun f hf ↦
    (hpass f hf).isMergeable fun n hn ↦ htexts n (List.mem_flatMap.2 ⟨f, hf, hn⟩)
  obtain ⟨merged, hmerged⟩ := (merge_succeeds_iff hids).2 hmergeable
  obtain ⟨filed, -, hfiled, -, hnodes, -⟩ := merge_spec hmerged
  have hiff := hfiled.forall_kinds_iff (IsKindIn nodeSchema)
  refine ⟨merged, _, hmerged, hnodes, hiff, fun hsame ↦ hiff.2 fun id n hn ↦ ?_⟩
  have hmem := (of_holder? hn).1
  obtain ⟨f, hf, hmem'⟩ := List.mem_flatMap.1 hmem
  exact (hpass f hf).isKindIn hmem' (hsame n hmem)

theorem merged_kinds_known_iff_shopFragments :
    (∀ f ∈ shopFragments, f.Passes shopNodeSchema shopEdgeTypes) ∧
      (∀ n ∈ allNodes shopFragments, Unanimous n) ∧
      ∃ merged nodes, merge shopFragments = .ok merged ∧ nodesOf merged = .ok nodes ∧
        ∀ v ∈ nodes, IsKindIn shopNodeSchema (field v "node_type") := by
  have hsame : ∀ n ∈ allNodes shopFragments, Unanimous n := by decide
  have htexts : ∀ n ∈ allNodes shopFragments, HasTextLabels n := by decide
  obtain ⟨merged, nodes, hmerged, hnodes, -, hknown⟩ :=
    merged_kinds_known_iff shopFragments_pass htexts
  exact ⟨shopFragments_pass, hsame, merged, nodes, hmerged, hnodes, hknown hsame⟩

/-- A file that tells two kinds, one of which is no kind of the core schema. -/
def doubleFragment : Fragment :=
  ⟨"fragment_python.json",
    .ok (.obj [("nodes", .arr [.obj [("id", .str "a.py"), ("type", .str "File"),
    ("node_type", .str "Bogus"), ("name", .str "a.py")]]), ("edges", .arr []),
    ("ambiguities", .arr [])])⟩

/-- It passes the check, and is merged to a node of the other kind. -/
theorem merged_kind_unchecked : ∃ types merged v,
    CoreSchema.edgeTypesOf Catalog.coreEdges = .ok types ∧
      doubleFragment.Passes Catalog.coreNodes types ∧ merge [doubleFragment] = .ok merged ∧
      nodesOf merged = .ok [v] ∧ v.member? "node_type" = some (.str "Bogus") ∧
      ¬IsKindIn Catalog.coreNodes (.str "Bogus") := by
  refine ⟨_, _, _, rfl, ⟨_, _, rfl, rfl, by cbv⟩, rfl, rfl, rfl, ?_⟩
  rintro ⟨kind, hmem, heq⟩
  cases heq
  exact absurd hmem (by decide)

end CodeAtlas.Graph
