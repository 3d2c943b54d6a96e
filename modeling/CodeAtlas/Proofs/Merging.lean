import CodeAtlas.Graph.Merge
import CodeAtlas.Proofs.NodeTables

/-!
# What merging makes of nodes and edges

Merging goes twice through all fragments. The first pass files every node under its canonical id and
notes the keys by which edges may refer to it; the second redirects the edges. Both passes are
folds, and what each of them leaves is described here by an invariant over the nodes, or the edges,
met so far.

A key leads to the last node that bears it. This one rule decides every reference.
-/

namespace CodeAtlas.Graph

open Fallible List Json Table Fragment

variable {es ns : List Json} {merged : Json}
variable {idOf : Table Key Json}

/-- The nodes of a fragment; there are none in one that cannot be read. -/
def Fragment.nodes (f : Fragment) : List Json := (f.document >>= nodesOf).toOption.getD []

variable {fragments : List Fragment} {f : Fragment}

/-- The edges of a fragment; there are none in one that cannot be read. -/
def Fragment.edges (f : Fragment) : List Json := (f.document >>= edgesOf).toOption.getD []

def allNodes (fragments : List Fragment) : List Json := fragments.flatMap Fragment.nodes

def allEdges (fragments : List Fragment) : List Json := fragments.flatMap Fragment.edges

lemma Fragment.nodes_of_ok {g : Json} (hf : f.document = .ok g) (hns : nodesOf g = .ok ns) :
    f.nodes = ns := by
  rw [nodes, hf]
  show (nodesOf g).toOption.getD [] = ns
  rw [hns]
  rfl

lemma Fragment.edges_of_ok {g : Json} (hf : f.document = .ok g) (hes : edgesOf g = .ok es) :
    f.edges = es := by
  rw [edges, hf]
  show (edgesOf g).toOption.getD [] = es
  rw [hes]
  rfl

namespace Merge

variable {n : Json} {id : String} {m m' : Edges}

def nameOf (n : Json) : Json := (n.member? "name").getD (.str "Unnamed")

/-- The id of a node as its builder gave it. -/
def rawId (n : Json) : Json := (n.member? "id").getD (.str "")

def kindOf (n : Json) : Json :=
  (((n.member? "node_type").getD .null).orElse ((n.member? "type").getD .null)).orElse
  (.str "Unknown")

/-- Whether edges may refer to a node by a key: by that of its name, or of its id if it has one. -/
def Bears (n : Json) (k : Key) : Prop :=
  (nameOf n).key? = some k ∨ (rawId n).truthy = true ∧ (rawId n).key? = some k

instance decidableBears (n : Json) (k : Key) : Decidable (Bears n k) :=
  inferInstanceAs (Decidable (_ ∨ _))

def bearer? (ns : List Json) (k : Key) : Option Json := (ns.filter fun n ↦ Bears n k).getLast?

def holder? (ns : List Json) (id : String) : Option Json :=
  (ns.filter fun n ↦ (assignedId n).toOption = some (.str id)).getLast?

def labels : List String := ["id", "node_type", "type"]

lemma exists_text_of_canonicalId {type id : Json} {k : Key} (hid : canonicalId n type = .ok id)
    (hk : id.key? = some k) : ∃ s, id = .str s := by
  simp only [canonicalId, bind_eq_ok, getD_eq_ok, get_eq_ok] at hid
  obtain ⟨name, -, path, -, raw, -, hid⟩ := hid
  split at hid
  · exact ⟨_, (pure_eq_ok.1 hid).symm⟩
  · obtain ⟨isScoped, hscoped, hid⟩ := bind_eq_ok.1 hid
    split at hid
    · rw [pure_eq_ok] at hid
      subst hid
      cases raw with
      | str s => exact ⟨s, rfl⟩
      | arr items => simp [Json.key?] at hk
      | obj members => simp [Json.key?] at hk
      | _ => simp [Json.holds] at hscoped
    · split at hid <;> exact ⟨_, (pure_eq_ok.1 hid).symm⟩

/-- What adding a node does: it stands under its canonical id, which is a text, with what it says
otherwise, and whatever it bears leads to that id from now on. -/
lemma addNode_spec {m m' : Nodes} (h : addNode m n = .ok m') :
    ∃ (id : String) (node : Json), assignedId n = .ok id ∧
      node.member? "id" = some (.str id) ∧ node.member? "node_type" = some (kindOf n) ∧
      (∀ name ∉ labels, node.member? name = n.member? name) ∧ m'.byId = m.byId.put (.str id) node ∧
      ∀ k, m'.idOf.get? k = if Bears n k then some (.str id) else m.idOf.get? k := by
  simp only [addNode, bind_eq_ok, getD_eq_ok, key_eq_ok] at h
  obtain ⟨type, htype, name, ⟨hobj, hname⟩, raw, ⟨-, hraw⟩, id, hid, idKey, hidKey, nameKey,
    hnameKey, h⟩ := h
  obtain ⟨id, rfl⟩ : ∃ s, id = .str s := by
    rw [assignedId, htype] at hid
    exact exists_text_of_canonicalId hid hidKey
  obtain rfl : kindOf n = type := by
    simp only [typeOf, bind_eq_ok, pure_eq_ok, get_eq_ok] at htype
    obtain ⟨_, ⟨-, rfl⟩, _, ⟨-, rfl⟩, htype⟩ := htype
    exact htype
  obtain rfl : Key.str id = idKey := Option.some.inj hidKey
  have hnamed : (nameOf n).key? = some nameKey := by rw [nameOf, hname, hnameKey]
  have hrawId : rawId n = raw := hraw
  have h₁ := isObject_setMember hobj "id" id
  have h₂ := isObject_setMember h₁ "node_type" (kindOf n)
  refine ⟨id, ((n.setMember "id" id).setMember "node_type" (kindOf n)).setMember "type" (kindOf n),
    hid, ?_, ?_, fun name hname ↦ ?_, ?_⟩
  · rw [member?_setMember h₂, if_neg (by decide), member?_setMember h₁,
      if_neg (by decide), member?_setMember hobj, if_pos rfl]
  · rw [member?_setMember h₂, if_neg (by decide), member?_setMember h₁, if_pos rfl]
  · simp only [labels, mem_cons, not_mem_nil, or_false, not_or] at hname
    rw [member?_setMember h₂, if_neg hname.2.2, member?_setMember h₁, if_neg hname.2.1,
      member?_setMember hobj, if_neg hname.1]
  split at h
  next htruthy =>
    obtain ⟨rawKey, hrawKey, idOf, hidOf, hm⟩ := by
      simpa only [bind_eq_ok, key_eq_ok, pure_eq_ok] using h
    subst hidOf hm
    refine ⟨rfl, fun k ↦ ?_⟩
    rw [get?_put, get?_put]
    by_cases hk : k = rawKey
    · simp [Bears, hrawId, htruthy, hrawKey, hk]
    · by_cases hkn : k = nameKey
      · simp [Bears, hnamed, hkn]
      · simp [Bears, hrawId, hnamed, hrawKey, hk, hkn, Ne.symm hk, Ne.symm hkn]
  next hfalsy =>
    obtain ⟨idOf, hidOf, hm⟩ := by simpa only [bind_eq_ok, pure_eq_ok] using h
    subst hidOf hm
    refine ⟨rfl, fun k ↦ ?_⟩
    rw [get?_put]
    simp [Bears, hrawId, hnamed, hfalsy, eq_comm]

/-- What the first pass has made of the nodes met so far. -/
structure NodesFiled (ns : List Json) (m : Nodes) : Prop where
  /-- No canonical id stands twice. -/
  distinct : m.byId.keys.Nodup
  /-- Every node has a canonical id, which is a text. -/
  assigned : ∀ n ∈ ns, ∃ id, assignedId n = .ok (.str id)
  /-- Nodes stand under the canonical ids, and under nothing else. -/
  mem_keys : ∀ k, k ∈ m.byId.keys ↔ ∃ n ∈ ns, ∃ id, assignedId n = .ok (.str id) ∧ k = .str id
  /-- A filed node has the id under which it stands. -/
  labelled : Labelled m.byId
  /-- Under a canonical id stands the last node of it, as it was but for what merging writes. -/
  kept : ∀ id v, m.byId.get? (.str id) = some v →
    ∃ n, holder? ns id = some n ∧ ∀ name ∉ labels, v.member? name = n.member? name
  /-- It has the kind that merging takes for that of the last node. -/
  typed : ∀ id v, m.byId.get? (.str id) = some v →
    ∃ n, holder? ns id = some n ∧ v.member? "node_type" = some (kindOf n)
  /-- A key leads to the canonical id of its last bearer. -/
  get?_idOf : ∀ k, m.idOf.get? k = (bearer? ns k).bind fun n ↦ (assignedId n).toOption

lemma nodesFiled_nil : NodesFiled [] {} where
  distinct := nodup_nil
  assigned := by simp
  mem_keys := by simp [Table.keys]
  labelled := by simp [Labelled]
  kept := by simp
  typed := by simp
  get?_idOf := by simp [bearer?]

lemma bearer?_concat (ns : List Json) (n : Json) (k : Key) :
    bearer? (ns ++ [n]) k = if Bears n k then some n else bearer? ns k := by
  rw [bearer?, bearer?, filter_append, filter_singleton]
  by_cases h : Bears n k <;> simp [h]

lemma of_holder? (h : holder? ns id = some n) : n ∈ ns ∧ assignedId n = .ok id := by
  obtain ⟨hn, hid⟩ := mem_filter.1 (mem_of_getLast? h)
  exact ⟨hn, toOption_eq_some.1 (of_decide_eq_true hid)⟩

lemma exists_holder? (hn : n ∈ ns) (hid : assignedId n = .ok id) : ∃ m, holder? ns id = some m := by
  refine ⟨_, getLast?_eq_some_getLast (ne_nil_of_mem (mem_filter.2 ⟨hn, ?_⟩))⟩
  exact decide_eq_true (toOption_eq_some.2 hid)

lemma holder?_concat (ns : List Json) (hid : assignedId n = .ok id) (id' : String) :
    holder? (ns ++ [n]) id' = if id' = id then some n else holder? ns id' := by
  rw [holder?, holder?, filter_append, filter_singleton, hid]
  by_cases h : id' = id
  · simp [h, Except.toOption]
  · simp [h, Ne.symm h, Except.toOption]

lemma NodesFiled.addNode {m m' : Nodes} {n : Json} (h : NodesFiled ns m)
    (hn : addNode m n = .ok m') : NodesFiled (ns ++ [n]) m' := by
  obtain ⟨id, node, hid, hnode, hkind, hmembers, hbyId, hidOf⟩ := addNode_spec hn
  -- What holds of the node that stands last under an id goes on to hold.
  have hlast {P : Json → Json → Prop} (hnew : P n node)
      (hold : ∀ id v, m.byId.get? (.str id) = some v → ∃ n, holder? ns id = some n ∧ P n v)
      (id' : String) (v : Json) (hv : m'.byId.get? (.str id') = some v) :
      ∃ n', holder? (ns ++ [n]) id' = some n' ∧ P n' v := by
    rw [hbyId, get?_put] at hv
    rw [holder?_concat ns hid]
    split at hv
    next hsame =>
      cases hv
      exact ⟨n, if_pos (Key.str.inj hsame), hnew⟩
    next hother =>
      rw [if_neg (mt (congrArg Key.str) hother)]
      exact hold id' v hv
  refine ⟨?_, ?_, fun k ↦ ?_, fun k v hkv ↦ ?_, hlast hmembers h.kept,
    hlast hkind h.typed, fun k ↦ ?_⟩
  · rw [hbyId]
    exact nodup_keys_put h.distinct _ _
  · simpa [or_imp, forall_and] using ⟨h.assigned, id, hid⟩
  · rw [hbyId, mem_keys_put, h.mem_keys]
    constructor
    · rintro (rfl | ⟨n', hn', hk⟩)
      · exact ⟨n, by simp, id, hid, rfl⟩
      · exact ⟨n', by simp [hn'], hk⟩
    · rintro ⟨n', hn', id', hid', rfl⟩
      rcases mem_append.1 hn' with hn' | hn'
      · exact .inr ⟨n', hn', id', hid', rfl⟩
      · rw [mem_singleton] at hn'
        subst hn'
        rw [hid] at hid'
        cases hid'
        exact .inl rfl
  · have hget := get?_of_mem (hbyId ▸ nodup_keys_put h.distinct _ _) hkv
    rw [hbyId, get?_put] at hget
    split at hget
    next hk =>
      cases hget
      exact ⟨id, hk, hnode⟩
    next => exact h.labelled k v (mem_of_get? hget)
  · rw [hidOf, bearer?_concat]
    split
    · rw [Option.bind_some, hid]
      rfl
    · exact h.get?_idOf k

lemma addFragment_eq_ok {m m' : Nodes} (h : addFragment m f = .ok m') :
    ∃ g tickets, f.document = .ok g ∧ nodesOf g = .ok f.nodes ∧
      (g.getD "ambiguities" (.arr []) >>= Json.elements) = .ok tickets ∧
      f.nodes.foldlM Merge.addNode { m with ambiguities := m.ambiguities ++ tickets } = .ok m' := by
  simp only [addFragment, bind_eq_ok] at h
  obtain ⟨g, hg, listed, hlisted, tickets, htickets, nodes, hnodes, ns, hns, h⟩ := h
  have hnodesOf : nodesOf g = .ok ns := bind_eq_ok.2 ⟨nodes, hnodes, hns⟩
  rw [nodes_of_ok hg hnodesOf]
  exact ⟨g, tickets, hg, hnodesOf, bind_eq_ok.2 ⟨listed, hlisted, htickets⟩, h⟩

/-- The first pass files the nodes of all fragments. -/
lemma nodesFiled_of_run {m : Nodes} (h : fragments.foldlM addFragment {} = .ok m) :
    NodesFiled (allNodes fragments) m := by
  refine foldlM_invariant (fun fs m ↦ NodesFiled (allNodes fs) m) ?_ nodesFiled_nil h
  intro fs m f m' hfs hf
  obtain ⟨g, tickets, -, -, -, hrun⟩ := addFragment_eq_ok hf
  have hstart : NodesFiled (allNodes fs ++ []) { m with ambiguities :=
      m.ambiguities ++ tickets } := by
    rw [append_nil]
    exact ⟨hfs.distinct, hfs.assigned, hfs.mem_keys, hfs.labelled, hfs.kept,
      hfs.typed, hfs.get?_idOf⟩
  have hall : allNodes (fs ++ [f]) = allNodes fs ++ f.nodes := by simp [allNodes]
  rw [hall]
  refine foldlM_invariant (fun ns m ↦ NodesFiled (allNodes fs ++ ns) m) ?_ hstart hrun
  intro ns m n m' hns hn
  rw [← append_assoc]
  exact hns.addNode hn

/-- The keys of both ends of an edge and of its kind. -/
def linkKey? (e : Endpoints) : Option (Key × Key × Key) :=
  match e.kind.key?, e.source.key?, e.target.key? with
  | some kind, some source, some target => some (kind, source, target)
  | _, _, _ => none

/-- Both ends and the kind of an edge of a merged graph. -/
def endsOf (e : Json) : Endpoints :=
  ⟨(e.member? "source").getD .null, (e.member? "target").getD .null, (e.member? "type").getD .null⟩

/-- What a reference leads to: a canonical id, or itself if nothing bears its key. -/
def resolve (idOf : Table Key Json) (v : Json) : Json := (v.key?.bind idOf.get?).getD v

/-- Both ends and the kind of an edge of a fragment. -/
def written (e : Json) : Endpoints :=
  ⟨(e.member? "from").getD .null, (e.member? "to").getD .null,
    ((e.member? "edge").getD .null).orElse ((e.member? "type").getD .null)⟩

/-- Both ends and the kind that an edge of a fragment gets. -/
def redirected (idOf : Table Key Json) (e : Json) : Endpoints :=
  ⟨resolve idOf (written e).source, resolve idOf (written e).target, (written e).kind⟩

/-- The edge that an edge of a fragment becomes, with all its further members. -/
def outcome (idOf : Table Key Json) (e : Json) : Json :=
  .obj ([("source", (redirected idOf e).source), ("target", (redirected idOf e).target),
    ("type", (redirected idOf e).kind)] ++ e.members.filter fun m ↦ !fixedFields.contains m.1)

lemma endsOf_outcome (idOf : Table Key Json) (e : Json) :
    endsOf (outcome idOf e) = redirected idOf e := by
  simp [endsOf, outcome, get?_cons]

/-- What adding an edge does, wherever it is done: it is redirected, and added unless its like is
there. -/
lemma addEdge_spec {e : Json} (h : addEdge idOf m e = .ok m') :
    ∃ key : Key × Key × Key, linkKey? (redirected idOf e) = some key ∧ ∀ m, addEdge idOf m e =
      .ok (if key ∈ m.seen then m else ⟨m.edges ++ [outcome idOf e], key :: m.seen⟩) := by
  simp only [addEdge, bind_eq_ok] at h
  obtain ⟨source, hsource, target, htarget, edge, hedge, type, htype, from', hfrom, to',
    hto, kindKey, hkind, sourceKey, hsourceKey, targetKey, htargetKey, -⟩ := h
  have hends : redirected idOf e =
      ⟨(idOf.get? from').getD source, (idOf.get? to').getD target, edge.orElse type⟩ := by
    simp only [redirected, written, resolve, (get_eq_ok.1 hsource).2, (get_eq_ok.1 htarget).2,
      (get_eq_ok.1 hedge).2, (get_eq_ok.1 htype).2, key_eq_ok.1 hfrom, key_eq_ok.1 hto,
      Option.bind_some]
  refine ⟨(kindKey, sourceKey, targetKey), ?_, fun m ↦ ?_⟩
  · rw [hends]
    simp [linkKey?, key_eq_ok.1 hkind, key_eq_ok.1 hsourceKey, key_eq_ok.1 htargetKey]
  · simp only [addEdge, hsource, htarget, hedge, htype, hfrom, hto, hkind, hsourceKey,
      htargetKey, bind, Except.bind, contains_iff_mem, outcome, hends]
    split <;> rfl

/-- What the second pass has made of the edges met so far. -/
structure EdgesLinked (idOf : Table Key Json) (es : List Json) (m : Edges) : Prop where
  /-- No two edges are known by the same keys. -/
  distinct : m.seen.Nodup
  /-- The keys that have been noted are those of the edges. -/
  keyed : m.edges.map (fun e ↦ linkKey? (endsOf e)) = m.seen.reverse.map some
  /-- Every edge tells both its ends. -/
  tells : ∀ edge ∈ m.edges, edge.member? "source" = some (endsOf edge).source ∧
    edge.member? "target" = some (endsOf edge).target
  /-- Every edge comes from one that was met. -/
  sound : ∀ edge ∈ m.edges, ∃ e ∈ es, endsOf edge = redirected idOf e
  /-- Every edge that was met has come out, or one of the same keys has. -/
  complete : ∀ e ∈ es, ∃ edge ∈ m.edges, ∃ key, linkKey? (endsOf edge) = some key ∧
    linkKey? (redirected idOf e) = some key

lemma edgesLinked_nil (idOf : Table Key Json) : EdgesLinked idOf [] {} where
  distinct := nodup_nil
  keyed := rfl
  tells := by simp
  sound := by simp
  complete := by simp

lemma EdgesLinked.exists_edge (h : EdgesLinked idOf es m) {key : Key × Key × Key}
    (hkey : key ∈ m.seen) : ∃ edge ∈ m.edges, linkKey? (endsOf edge) = some key := by
  have hmem : some key ∈ m.edges.map fun e ↦ linkKey? (endsOf e) := by
    rw [h.keyed]
    simpa using hkey
  simpa using hmem

lemma EdgesLinked.addEdge {m m' : Edges} {e : Json}
    (h : EdgesLinked idOf es m) (he : addEdge idOf m e = .ok m') :
    EdgesLinked idOf (es ++ [e]) m' := by
  obtain ⟨key, hkey, hrun⟩ := addEdge_spec he
  have hm' := Except.ok.inj (he.symm.trans (hrun m))
  have hends := endsOf_outcome idOf e
  have hsound : ∀ old ∈ m.edges, ∃ e' ∈ es ++ [e], endsOf old = redirected idOf e' := by
    intro old hold
    obtain ⟨e', he', hold⟩ := h.sound old hold
    exact ⟨e', by simp [he'], hold⟩
  by_cases hseen : key ∈ m.seen
  · rw [if_pos hseen] at hm'
    subst hm'
    refine ⟨h.distinct, h.keyed, h.tells, hsound, fun e' he' ↦ ?_⟩
    rcases mem_append.1 he' with he' | he'
    · exact h.complete e' he'
    · rw [mem_singleton] at he'
      obtain ⟨old, hold, holdKey⟩ := h.exists_edge hseen
      exact ⟨old, hold, key, holdKey, he' ▸ hkey⟩
  · rw [if_neg hseen] at hm'
    subst hm'
    refine ⟨nodup_cons.2 ⟨hseen, h.distinct⟩, ?_, fun new hnew ↦ ?_, fun new hnew ↦ ?_,
      fun e' he' ↦ ?_⟩
    · simp [h.keyed, hends, hkey]
    · rcases mem_append.1 hnew with hnew | hnew
      · exact h.tells new hnew
      · rw [mem_singleton.1 hnew]
        simp [endsOf, outcome, get?_cons]
    · rcases mem_append.1 hnew with hnew | hnew
      · exact hsound new hnew
      · rw [mem_singleton] at hnew
        exact ⟨e, by simp, hnew ▸ hends⟩
    · rcases mem_append.1 he' with he' | he'
      · obtain ⟨old, hold, hkeys⟩ := h.complete e' he'
        exact ⟨old, by simp [hold], hkeys⟩
      · rw [mem_singleton] at he'
        exact ⟨outcome idOf e, by simp, key, hends ▸ hkey, he' ▸ hkey⟩

lemma addFragmentEdges_eq_ok (h : addFragmentEdges idOf m f = .ok m') :
    ∃ g, f.document = .ok g ∧ edgesOf g = .ok f.edges ∧ f.edges.foldlM (Merge.addEdge idOf) m =
      .ok m' := by
  simp only [addFragmentEdges, bind_eq_ok] at h
  obtain ⟨g, hg, edges, hedges, es, hes, h⟩ := h
  have hedgesOf : edgesOf g = .ok es := bind_eq_ok.2 ⟨edges, hedges, hes⟩
  rw [edges_of_ok hg hedgesOf]
  exact ⟨g, hg, hedgesOf, h⟩

/-- The second pass links the edges of all fragments. -/
lemma edgesLinked_of_run (h : fragments.foldlM (addFragmentEdges idOf) {} = .ok m) :
    EdgesLinked idOf (allEdges fragments) m := by
  refine foldlM_invariant (fun fs m ↦ EdgesLinked idOf (allEdges fs) m) ?_ (edgesLinked_nil idOf) h
  intro fs m f m' hfs hf
  obtain ⟨g, -, -, hrun⟩ := addFragmentEdges_eq_ok hf
  have hall : allEdges (fs ++ [f]) = allEdges fs ++ f.edges := by simp [allEdges]
  rw [hall]
  refine foldlM_invariant (fun es m ↦ EdgesLinked idOf (allEdges fs ++ es) m) ?_ ?_ hrun
  · intro es m e m' hes he
    rw [← append_assoc]
    exact hes.addEdge he
  · rw [append_nil]
    exact hfs

end Merge

/-- What a merged graph is made of: nodes that have been filed and edges that have been linked. -/
lemma merge_spec (h : merge fragments = .ok merged) :
    ∃ (filed : Merge.Nodes) (linked : Merge.Edges), Merge.NodesFiled (allNodes fragments) filed ∧
      Merge.EdgesLinked filed.idOf (allEdges fragments) linked ∧
      nodesOf merged = .ok filed.byId.values ∧ edgesOf merged = .ok linked.edges := by
  simp only [merge, bind_eq_ok, pure_eq_ok] at h
  obtain ⟨filed, hfiled, linked, hlinked, rfl⟩ := h
  exact ⟨filed, linked, Merge.nodesFiled_of_run hfiled, Merge.edgesLinked_of_run hlinked, rfl, rfl⟩

lemma members_of_merge {nodes edges : List Json} (h : merge fragments = .ok merged)
    (hnodes : nodesOf merged = .ok nodes) (hedges : edgesOf merged = .ok edges) :
    merged.member? "nodes" = some (.arr nodes) ∧ merged.member? "edges" = some (.arr edges) := by
  simp only [merge, bind_eq_ok, pure_eq_ok] at h
  obtain ⟨filed, -, linked, -, rfl⟩ := h
  cases hnodes
  cases hedges
  exact ⟨rfl, rfl⟩

end CodeAtlas.Graph
