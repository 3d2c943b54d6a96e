import CodeAtlas.Proofs.Merging

/-!
# Where merging leads the edges

Edges of a fragment refer to nodes by their ids. Merging keeps ids and names in one table, so a
later node whose name is the id of an earlier one takes over the edges of the earlier one. With
distinct ids this is the only way in which an edge can go astray.
-/

namespace CodeAtlas.Graph

open Fallible Merge List Json

/-- The ids of the nodes are texts, none of them empty and no two the same. -/
def HaveDistinctIds (ns : List Json) : Prop :=
  ∃ ids : List String, ns.map rawId = ids.map str ∧ ids.Nodup ∧ "" ∉ ids

/-- What merging asks of a fragment: its lists can be walked through, its nodes have names, and its
edges ends and kinds, that serve as keys. -/
structure Fragment.IsMergeable (f : Fragment) : Prop where
  listed : ∃ g tickets, f.document = .ok g ∧ nodesOf g = .ok f.nodes ∧ edgesOf g = .ok f.edges ∧
    (g.getD "ambiguities" (.arr []) >>= elements) = .ok tickets
  nodes : ∀ n ∈ f.nodes, n.IsObject ∧ ∃ k, (nameOf n).key? = some k
  edges : ∀ e ∈ f.edges, e.IsObject ∧ ∃ key, linkKey? (written e) = some key

namespace Merge

variable {ns : List Json} {filed : Nodes} {id : String} {a : Json} {f : Fragment}

lemma exists_assignedId {n : Json} (hobj : n.IsObject) (hid : rawId n = .str id) :
    ∃ s, assignedId n = .ok (.str s) := by
  have hget (name : String) : n.get name = .ok ((n.member? name).getD .null) :=
    get_eq_ok.2 ⟨hobj, rfl⟩
  have hraw : n.getD "id" "" = .ok id := getD_eq_ok.2 ⟨hobj, hid⟩
  have hname : n.getD "name" "Unnamed" = .ok (nameOf n) := getD_eq_ok.2 ⟨hobj, rfl⟩
  simp only [assignedId, typeOf, canonicalId, hget, hraw, hname, holds, bind, Except.bind, pure,
    Except.pure]
  split
  · exact ⟨_, rfl⟩
  · split
    · exact ⟨_, rfl⟩
    · split <;> exact ⟨_, rfl⟩

/-- A node with a text for an id can be added just if it has a name that serves as a key. -/
lemma addNode_succeeds_iff {n : Json} (hid : rawId n = .str id) (m : Nodes) :
    (∃ m', addNode m n = .ok m') ↔ n.IsObject ∧ ∃ k, (nameOf n).key? = some k := by
  constructor
  · rintro ⟨m', h⟩
    simp only [addNode, bind_eq_ok, getD_eq_ok, key_eq_ok] at h
    obtain ⟨type, -, name, ⟨hobj, rfl⟩, raw, -, id, -, idKey, -, nameKey, hnameKey, -⟩ := h
    exact ⟨hobj, nameKey, hnameKey⟩
  · rintro ⟨hobj, k, hk⟩
    obtain ⟨s, hs⟩ := exists_assignedId hobj hid
    obtain ⟨type, htype, -⟩ := bind_eq_ok.1 hs
    have hraw : n.getD "id" "" = .ok id := getD_eq_ok.2 ⟨hobj, hid⟩
    have hname : n.getD "name" "Unnamed" = .ok (nameOf n) := getD_eq_ok.2 ⟨hobj, rfl⟩
    have hkey : (nameOf n).key = .ok k := key_eq_ok.2 hk
    simp only [addNode, htype, hname, hraw, hs, hkey, key_str, bind, Except.bind, pure, Except.pure]
    split <;> exact ⟨_, rfl⟩

lemma linkKey?_eq_some {e : Endpoints} {key : Key × Key × Key} : linkKey? e = some key ↔
      e.kind.key? = some key.1 ∧ e.source.key? = some key.2.1 ∧ e.target.key? = some key.2.2 := by
  obtain ⟨kind, source, target⟩ := key
  rw [linkKey?]
  split
  next hkind hsource htarget => simp [hkind, hsource, htarget]
  next hnone =>
    simp only [reduceCtorEq, false_iff]
    rintro ⟨hkind, hsource, htarget⟩
    exact hnone _ _ _ hkind hsource htarget

/-- A reference that serves as a key still does when it has been redirected to a filed node. -/
lemma NodesFiled.exists_key_resolve {m : Nodes} (h : NodesFiled ns m) {v : Json} {k : Key}
    (hk : v.key? = some k) : ∃ k', (resolve m.idOf v).key? = some k' := by
  rw [resolve, hk, Option.bind_some, h.get?_idOf]
  cases hlast : bearer? ns k with
  | none => exact ⟨k, hk⟩
  | some n =>
    obtain ⟨id, hid⟩ := h.assigned n (mem_of_mem_filter (mem_of_getLast? hlast))
    rw [Option.bind_some, hid]
    exact ⟨.str id, rfl⟩

lemma NodesFiled.addEdge_succeeds_iff (h : NodesFiled ns filed) (m : Edges) (e : Json) :
    (∃ m', Merge.addEdge filed.idOf m e = .ok m') ↔ e.IsObject ∧
    ∃ key, linkKey? (written e) = some key := by
  constructor
  · rintro ⟨m', he⟩
    simp only [Merge.addEdge, bind_eq_ok, get_eq_ok, key_eq_ok] at he
    obtain ⟨source, ⟨hobj, rfl⟩, target, ⟨-, rfl⟩, edge, ⟨-, rfl⟩, type, ⟨-, rfl⟩,
      from', hfrom, to', hto, kindKey, hkind, -⟩ := he
    exact ⟨hobj, (kindKey, from', to'), linkKey?_eq_some.2 ⟨hkind, hfrom, hto⟩⟩
  · rintro ⟨hobj, ⟨kindKey, from', to'⟩, hkey⟩
    obtain ⟨hkind, hfrom, hto⟩ := linkKey?_eq_some.1 hkey
    obtain ⟨sourceKey, hsource⟩ := h.exists_key_resolve hfrom
    obtain ⟨targetKey, htarget⟩ := h.exists_key_resolve hto
    rw [resolve, hfrom, Option.bind_some] at hsource
    rw [resolve, hto, Option.bind_some] at htarget
    have hget (name : String) : e.get name = .ok ((e.member? name).getD .null) :=
      get_eq_ok.2 ⟨hobj, rfl⟩
    simp only [written] at hkind hfrom hto hsource htarget
    simp only [Merge.addEdge, hget, key_eq_ok.2 hkind, key_eq_ok.2 hfrom,
      key_eq_ok.2 hto, key_eq_ok.2 hsource, key_eq_ok.2 htarget, bind, Except.bind,
      pure, Except.pure]
    split <;> exact ⟨_, rfl⟩

lemma addFragment_succeeds (hf : f.IsMergeable) (hids : ∀ n ∈ f.nodes, ∃ id, rawId n = .str id)
    (m : Nodes) : ∃ m', addFragment m f = .ok m' := by
  obtain ⟨g, tickets, hg, hnodes, -, htickets⟩ := hf.listed
  obtain ⟨listed, hlisted, htickets⟩ := bind_eq_ok.1 htickets
  obtain ⟨items, hitems, hnodes⟩ := bind_eq_ok.1 hnodes
  have hstep (m : Nodes) (n : Json) (hn : n ∈ f.nodes) : ∃ m', Merge.addNode m n = .ok m' := by
    obtain ⟨id, hid⟩ := hids n hn
    exact (addNode_succeeds_iff hid m).2 (hf.nodes n hn)
  obtain ⟨m', hm'⟩ := foldlM_succeeds hstep { m with ambiguities := m.ambiguities ++ tickets }
  refine ⟨m', ?_⟩
  simp only [addFragment, bind_eq_ok]
  exact ⟨g, hg, listed, hlisted, tickets, htickets, items, hitems, f.nodes, hnodes, hm'⟩

lemma NodesFiled.addFragmentEdges_succeeds (h : NodesFiled ns filed) (hf : f.IsMergeable)
    (m : Edges) : ∃ m', addFragmentEdges filed.idOf m f = .ok m' := by
  obtain ⟨g, -, hg, -, hedges, -⟩ := hf.listed
  obtain ⟨items, hitems, hedges⟩ := bind_eq_ok.1 hedges
  obtain ⟨m', hm'⟩ :=
    foldlM_succeeds (fun m e he ↦ (h.addEdge_succeeds_iff m e).2 (hf.edges e he)) m
  refine ⟨m', ?_⟩
  simp only [addFragmentEdges, bind_eq_ok]
  exact ⟨g, hg, items, hitems, f.edges, hedges, hm'⟩

/-- Nodes with texts for ids are merged just if merging gets what it asks of every fragment. -/
lemma merge_succeeds_iff {fragments : List Fragment}
    (hids : ∀ n ∈ allNodes fragments, ∃ id, rawId n = .str id) :
    (∃ merged, merge fragments = .ok merged) ↔ ∀ f ∈ fragments, f.IsMergeable := by
  have hidsOf (f : Fragment) (hf : f ∈ fragments) (n : Json) (hn : n ∈ f.nodes) :
      ∃ id, rawId n = .str id := hids n (mem_flatMap.2 ⟨f, hf, hn⟩)
  constructor
  · rintro ⟨merged, h⟩ f hf
    simp only [merge, bind_eq_ok] at h
    obtain ⟨filed, hfiled, linked, hlinked, -⟩ := h
    obtain ⟨m, m', hm⟩ := exists_step_of_mem hfiled hf
    obtain ⟨g, tickets, hg, hnodes, htickets, hnodesRun⟩ := addFragment_eq_ok hm
    obtain ⟨l, l', hl⟩ := exists_step_of_mem hlinked hf
    obtain ⟨g', hg', hedges, hedgesRun⟩ := addFragmentEdges_eq_ok hl
    obtain rfl : g = g' := Except.ok.inj (hg.symm.trans hg')
    refine ⟨⟨g, tickets, hg, hnodes, hedges, htickets⟩, fun n hn ↦ ?_, fun e he ↦ ?_⟩
    · obtain ⟨c, c', hc⟩ := exists_step_of_mem hnodesRun hn
      obtain ⟨id, hid⟩ := hidsOf f hf n hn
      exact (addNode_succeeds_iff hid c).1 ⟨c', hc⟩
    · obtain ⟨c, c', hc⟩ := exists_step_of_mem hedgesRun he
      exact ((nodesFiled_of_run hfiled).addEdge_succeeds_iff c e).1 ⟨c', hc⟩
  · intro hmergeable
    obtain ⟨filed, hfiled⟩ := foldlM_succeeds
      (fun m f hf ↦ addFragment_succeeds (hmergeable f hf) (hidsOf f hf) m) {}
    have h := nodesFiled_of_run hfiled
    obtain ⟨linked, hlinked⟩ := foldlM_succeeds
      (fun m f hf ↦ h.addFragmentEdges_succeeds (hmergeable f hf) m) {}
    rw [merge, hfiled]
    show ∃ merged, (fragments.foldlM (addFragmentEdges filed.idOf) {} >>= _) = .ok merged
    rw [hlinked]
    exact ⟨_, rfl⟩

/-- The nodes after the given one that have its id as their name. -/
def namesakes (ns : List Json) (a : Json) : List Json :=
  (ns.dropWhile fun n ↦ (rawId n).key? ≠ (rawId a).key?).tail.filter fun n ↦
    (nameOf n).key? = (rawId a).key?

/-- The node that edges get which refer to the given one by its id. -/
def addressee (ns : List Json) (a : Json) : Json := (namesakes ns a).getLast?.getD a

lemma exists_rawId (hids : HaveDistinctIds ns) (ha : a ∈ ns) :
    ∃ id, rawId a = .str id ∧ id ≠ "" := by
  obtain ⟨ids, hids, -, hne⟩ := hids
  have hmem : rawId a ∈ ids.map str := hids ▸ mem_map_of_mem ha
  obtain ⟨id, hid, heq⟩ := mem_map.1 hmem
  exact ⟨id, heq.symm, fun h ↦ hne (h ▸ hid)⟩

lemma nodup_rawId (hids : HaveDistinctIds ns) : (ns.map rawId).Nodup := by
  obtain ⟨ids, hids, hnodup, -⟩ := hids
  rw [hids]
  exact hnodup.map fun _ _ h ↦ str.inj h

/-- With distinct ids, only nodes that come later and have its id as their name take the place of a
node. -/
lemma bearer?_rawId (hids : HaveDistinctIds ns) (ha : a ∈ ns) (hid : rawId a = .str id) :
    bearer? ns (.str id) = some (addressee ns a) := by
  have hne : id ≠ "" := by
    obtain ⟨id', hid', hne⟩ := exists_rawId hids ha
    rw [hid] at hid'
    cases hid'
    exact hne
  have hnodup := nodup_rawId hids
  obtain ⟨before, after, rfl⟩ := append_of_mem ha
  rw [map_append, map_cons, nodup_middle, nodup_cons] at hnodup
  have hother (n : Json) (hn : n ∈ before ∨ n ∈ after) : (rawId n).key? ≠ some (.str id) := by
    rw [Ne, key?_eq_str, ← hid]
    intro heq
    refine hnodup.1 ?_
    rw [← heq, ← map_append]
    exact mem_map_of_mem (mem_append.2 hn)
  have hbears : Bears a (.str id) := by
    refine .inr ⟨?_, ?_⟩
    · simpa [hid, truthy] using hne
    · rw [hid, key?_str]
  have hdrop : ((before ++ a :: after).dropWhile fun n ↦ (rawId n).key? ≠ (rawId a).key?) =
      a :: after := by
    rw [dropWhile_append_of_pos fun n hn ↦ by simpa [hid] using hother n (.inl hn)]
    simp
  have hlater : (after.filter fun n ↦ Bears n (.str id)) = namesakes (before ++ a :: after) a := by
    rw [namesakes, hdrop, tail_cons]
    refine filter_congr fun n hn ↦ ?_
    simp [Bears, hid, hother n (.inr hn)]
  rw [bearer?, filter_append, filter_cons_of_pos (by simpa using hbears), hlater,
    getLast?_append, getLast?_cons, addressee]
  rfl

lemma NodesFiled.resolve_rawId {m : Nodes} (h : NodesFiled ns m) (hids : HaveDistinctIds ns)
    (ha : a ∈ ns) :
    ∃ id, assignedId (addressee ns a) = .ok (.str id) ∧ resolve m.idOf (rawId a) = .str id := by
  obtain ⟨raw, hraw, -⟩ := exists_rawId hids ha
  have hlast := bearer?_rawId hids ha hraw
  obtain ⟨id, hid⟩ :=
    h.assigned (addressee ns a) (mem_of_mem_filter (mem_of_getLast? hlast))
  refine ⟨id, hid, ?_⟩
  rw [resolve, hraw, key?_str, Option.bind_some, h.get?_idOf, hlast, Option.bind_some, hid]
  rfl

/-- An edge of a merged graph is of the kind of an edge of a fragment, and joins two nodes. -/
structure Joins (edge e a b : Json) : Prop where
  kind : (endsOf edge).kind.key? = (written e).kind.key?
  source : assignedId a = .ok (endsOf edge).source
  target : assignedId b = .ok (endsOf edge).target

lemma Joins.iff {edge e b a' b' : Json} (h : Joins edge e a' b') :
    Joins edge e a b ↔ assignedId a' = assignedId a ∧ assignedId b' = assignedId b := by
  constructor
  · intro hjoins
    exact ⟨h.source.trans hjoins.source.symm, h.target.trans hjoins.target.symm⟩
  · rintro ⟨ha, hb⟩
    exact ⟨h.kind, ha ▸ h.source, hb ▸ h.target⟩

/-- An edge between two ids comes out between the addressees of these ids. -/
lemma EdgesLinked.exists_joins {es : List Json} {linked : Edges}
    (hlinked : EdgesLinked filed.idOf es linked) (hfiled : NodesFiled ns filed)
    (hids : HaveDistinctIds ns) {e b : Json} (he : e ∈ es) (ha : a ∈ ns) (hb : b ∈ ns)
    (hfrom : e.member? "from" = some (rawId a)) (hto : e.member? "to" = some (rawId b)) :
    ∃ edge ∈ linked.edges, Joins edge e (addressee ns a) (addressee ns b) := by
  obtain ⟨edge, hedge, ⟨kind, source, target⟩, hedgeKey, hkey⟩ := hlinked.complete e he
  obtain ⟨hkind, hsource, htarget⟩ := linkKey?_eq_some.1 hedgeKey
  obtain ⟨hkind', hsource', htarget'⟩ := linkKey?_eq_some.1 hkey
  obtain ⟨idA, hidA, hresolveA⟩ := hfiled.resolve_rawId hids ha
  obtain ⟨idB, hidB, hresolveB⟩ := hfiled.resolve_rawId hids hb
  have hA : source = .str idA := by
    simpa [redirected, written, hfrom, hresolveA, eq_comm] using hsource'
  have hB : target = .str idB := by
    simpa [redirected, written, hto, hresolveB, eq_comm] using htarget'
  subst hA hB
  refine ⟨edge, hedge, hkind.trans hkind'.symm, ?_, ?_⟩
  · rw [hidA, key?_eq_str.1 hsource]
  · rw [hidB, key?_eq_str.1 htarget]

end Merge

/-- Fragments whose nodes have distinct ids are merged just if merging gets what it asks of them.
Then every edge between two ids comes out between the addressees of these ids. It joins the nodes
that it referred to just if these have the canonical ids of their addressees. -/
theorem merge_leads_edges {fragments : List Fragment}
    (hids : HaveDistinctIds (allNodes fragments)) :
    ((∃ merged, merge fragments = .ok merged) ↔ ∀ f ∈ fragments, f.IsMergeable) ∧
    ∀ merged, merge fragments = .ok merged → ∃ edges, edgesOf merged = .ok edges ∧
      ∀ f ∈ fragments, ∀ e ∈ f.edges, ∀ a ∈ f.nodes, ∀ b ∈ f.nodes,
        e.member? "from" = some (rawId a) → e.member? "to" = some (rawId b) →
        ∃ edge ∈ edges,
          Joins edge e (addressee (allNodes fragments) a) (addressee (allNodes fragments) b) ∧
          (Joins edge e a b ↔ assignedId (addressee (allNodes fragments) a) = assignedId a ∧
            assignedId (addressee (allNodes fragments) b) = assignedId b) := by
  refine ⟨merge_succeeds_iff fun n hn ↦ ?_, fun merged h ↦ ?_⟩
  · obtain ⟨id, hid, -⟩ := exists_rawId hids hn
    exact ⟨id, hid⟩
  obtain ⟨filed, linked, hfiled, hlinked, -, hedges⟩ := merge_spec h
  refine ⟨_, hedges, fun f hf e he a ha b hb hfrom hto ↦ ?_⟩
  obtain ⟨edge, hedge, hjoins⟩ := hlinked.exists_joins hfiled hids
    (mem_flatMap.2 ⟨f, hf, he⟩) (mem_flatMap.2 ⟨f, hf, ha⟩)
    (mem_flatMap.2 ⟨f, hf, hb⟩) hfrom hto
  exact ⟨edge, hedge, hjoins, hjoins.iff⟩

/-- A file, a class that it defines, and a file of the same name in a folder. -/
def rootModels : Json :=
  .obj [("id", .str "models.py"), ("node_type", .str "File"), ("name", .str "models.py"),
    ("file_path", .str "models.py")]

def userClass : Json :=
  .obj [("id", .str "models.py::User"), ("node_type", .str "Class"), ("name", .str "User")]

def shopModels : Json :=
  .obj [("id", .str "shop/models.py"), ("node_type", .str "File"), ("name", .str "models.py"),
    ("file_path", .str "shop/models.py")]

def definesUser : Json :=
  .obj [("edge", .str "defines"), ("from", .str "models.py"), ("to", .str "models.py::User")]

def modelsFragment : Fragment :=
  ⟨"fragment_python.json", .ok (.obj [("nodes", .arr [rootModels, userClass, shopModels]),
    ("edges", .arr [definesUser])])⟩

/-- The edge that comes out. -/
def strayEdge : Json :=
  .obj [("source", .str "File:shop/models.py"), ("target", .str "models.py::User"),
    ("type", .str "defines")]

lemma haveDistinctIds_models : HaveDistinctIds (allNodes [modelsFragment]) :=
  ⟨["models.py", "models.py::User", "shop/models.py"], rfl, by decide, by decide⟩

lemma merge_models : ∃ merged, merge [modelsFragment] = .ok merged ∧
    edgesOf merged = .ok [strayEdge] := ⟨_, rfl, rfl⟩

theorem merge_leads_edges_models :
    HaveDistinctIds (allNodes [modelsFragment]) ∧
      addressee (allNodes [modelsFragment]) rootModels = shopModels ∧
      ∃ merged, merge [modelsFragment] = .ok merged ∧ ∃ edges, edgesOf merged = .ok edges ∧
        ∃ edge ∈ edges, Joins edge definesUser shopModels userClass := by
  obtain ⟨merged, hmerged, -⟩ := merge_models
  obtain ⟨edges, hedges, hleads⟩ := (merge_leads_edges haveDistinctIds_models).2 merged hmerged
  refine ⟨haveDistinctIds_models, rfl, merged, hmerged, edges, hedges, ?_⟩
  have hedge : definesUser ∈ modelsFragment.edges := mem_singleton.2 rfl
  have hroot : rootModels ∈ modelsFragment.nodes := mem_cons_self
  have huser : userClass ∈ modelsFragment.nodes := mem_cons_of_mem _ mem_cons_self
  obtain ⟨edge, hmem, hjoins, -⟩ :=
    hleads modelsFragment mem_cons_self _ hedge _ hroot _ huser rfl rfl
  exact ⟨edge, hmem, hjoins⟩

/-- The edge of the file at the root leaves the file in the folder instead. -/
theorem merge_rewires_edge :
    HaveDistinctIds (allNodes [modelsFragment]) ∧ modelsFragment.edges = [definesUser] ∧
      modelsFragment.nodes = [rootModels, userClass, shopModels] ∧
      definesUser.member? "from" = some (rawId rootModels) ∧
      definesUser.member? "to" = some (rawId userClass) ∧
      ∃ merged edges, merge [modelsFragment] = .ok merged ∧ edgesOf merged = .ok edges ∧
        ¬∃ edge ∈ edges, Joins edge definesUser rootModels userClass := by
  obtain ⟨merged, hmerged, hedges⟩ := merge_models
  refine ⟨haveDistinctIds_models, rfl, rfl, rfl, rfl, merged, _, hmerged, hedges, ?_⟩
  rintro ⟨edge, hedge, hjoins⟩
  rw [mem_singleton] at hedge
  subst hedge
  have hroot : assignedId rootModels = .ok (.str "File:models.py") := rfl
  have hsource := str.inj (Except.ok.inj (hroot.symm.trans hjoins.source))
  exact absurd hsource (by decide)

end CodeAtlas.Graph
