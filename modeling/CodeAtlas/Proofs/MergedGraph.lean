import CodeAtlas.Proofs.Conforming
import CodeAtlas.Proofs.Merging

/-!
# Merging checked fragments gives a sound graph

The check of a fragment and the merging of fragments know nodes by different keys: the check by id
or else by name, merging by both. Every key of the check is also one of merging, and every key of
merging leads to a node of the merged graph. So the edges of fragments that pass the check all join
nodes of the merged graph.

What a fragment writes to the tables of nodes and ids does not depend on what is there. So to go
through the fragments a second time is to write the same entries once more, which changes nothing:
the places of keys are those of their first entries, and the values those of the last. References
lead where they led before, and each edge has its like already.
-/

namespace CodeAtlas.Graph

open List Fallible Merge Conformance Json

/-- The report on the graph of a fragment says that it passes. -/
def Fragment.Passes (nodeSchema : Json) (edgeTypes : Table String Json) (f : Fragment) : Prop :=
  ∃ g r, f.document = .ok g ∧ Conformance.check nodeSchema edgeTypes f.name g = .ok r ∧
    r.document.member? "status" = some (.str "pass")

lemma Merge.bears_identifier {n : Json} {k : Key} (htruthy : (identifier n).truthy = true)
    (hkey : (identifier n).key? = some k) : Bears n k := by
  unfold identifier at htruthy hkey
  cases hid : ((n.member? "id").getD .null).truthy with
  | true =>
    rw [orElse_of_truthy hid] at hkey
    cases hm : n.member? "id" with
    | none => simp [hm, truthy] at hid
    | some v =>
      have hraw : rawId n = v := by rw [rawId, hm, Option.getD_some]
      rw [hm, Option.getD_some] at hid hkey
      exact .inr ⟨hraw ▸ hid, hraw ▸ hkey⟩
  | false =>
    rw [orElse_of_not_truthy hid] at htruthy hkey
    cases hm : n.member? "name" with
    | none => simp [hm, truthy] at htruthy
    | some v =>
      have hname : nameOf n = v := by rw [nameOf, hm, Option.getD_some]
      rw [hm, Option.getD_some] at hkey
      exact .inl (hname ▸ hkey)

lemma Merge.NodesFiled.resolve_mem {ns : List Json} {m : Nodes} (h : NodesFiled ns m) {n v : Json}
    {k : Key} (hn : n ∈ ns) (hk : v.key? = some k) (hbears : Bears n k) :
    ∃ id, resolve m.idOf v = .str id ∧ Key.str id ∈ m.byId.keys := by
  have hmem : n ∈ ns.filter fun n ↦ Bears n k := by simp [hn, hbears]
  obtain ⟨last, hlast⟩ : ∃ last, bearer? ns k = some last :=
    Option.isSome_iff_exists.1 (getLast?_isSome.2 (ne_nil_of_mem hmem))
  have hlastMem : last ∈ ns := mem_of_mem_filter (mem_of_getLast? hlast)
  obtain ⟨id, hid⟩ := h.assigned last hlastMem
  refine ⟨id, ?_, (h.mem_keys _).2 ⟨last, hlastMem, id, hid, rfl⟩⟩
  rw [resolve, hk, Option.bind_some, h.get?_idOf, hlast, Option.bind_some, hid]
  rfl

/-- An edge whose kind and ends are texts. -/
structure Link where
  kind : String
  source : String
  target : String

def Link.ends (l : Link) : Endpoints := ⟨.str l.source, .str l.target, .str l.kind⟩

/-- An edge of a fragment that passes the check is redirected to ids of filed nodes. -/
lemma Merge.redirected_of_passes {nodeSchema : Json} {edgeTypes : Table String Json}
    {fragments : List Fragment} {m : Nodes} (hm : NodesFiled (allNodes fragments) m) {f : Fragment}
    (hf : f ∈ fragments) (hpass : f.Passes nodeSchema edgeTypes) {e : Json} (he : e ∈ f.edges) :
    ∃ l : Link, redirected m.idOf e = l.ends ∧ Key.str l.source ∈ m.byId.keys ∧
      Key.str l.target ∈ m.byId.keys := by
  obtain ⟨g, r, hg, hr, hstatus⟩ := hpass
  obtain ⟨nodes, edges, tickets, hnodes, hedges, -, hpasses⟩ := check_spec hr
  obtain ⟨hnode, hedge, -⟩ := hpasses.1 (status_eq_pass.1 hstatus)
  rw [Fragment.edges_of_ok hg hedges] at he
  have hknown {k : Key} {v : Json} (hk : kindUnder nodes k = some v) :
      ∃ n ∈ allNodes fragments, Bears n k := by
    obtain ⟨n, hn, heq⟩ := exists_of_lastUnder hk
    refine ⟨n, ?_, bears_identifier (hnode n hn).1 (congrArg Prod.fst heq)⟩
    rw [← Fragment.nodes_of_ok hg hnodes] at hn
    exact mem_flatMap.2 ⟨f, hf, hn⟩
  obtain ⟨kind, rule, hkind, hne, -, ⟨-, from', _, hfrom, hfromKind, -⟩, -, to', _,
    hto, htoKind, -⟩ := hedge e he
  rw [field] at hkind hfrom hto
  obtain ⟨n₁, hn₁, hbears₁⟩ := hknown hfromKind
  obtain ⟨n₂, hn₂, hbears₂⟩ := hknown htoKind
  obtain ⟨source, hsource, hsourceMem⟩ := hm.resolve_mem hn₁ hfrom hbears₁
  obtain ⟨target, htarget, htargetMem⟩ := hm.resolve_mem hn₂ hto hbears₂
  refine ⟨⟨kind, source, target⟩, ?_, hsourceMem, htargetMem⟩
  have htruthy : (str kind).truthy = true := truthy_str.2 hne
  simp only [redirected, written, hsource, htarget, hkind, orElse_of_truthy htruthy, Link.ends]

/-- Linked edges whose kinds and ends are all texts differ in one of them. -/
lemma Merge.EdgesLinked.exists_links {idOf : Table Key Json} {es : List Json} {m : Edges}
    (h : EdgesLinked idOf es m) (htexts : ∀ edge ∈ m.edges, ∃ l : Link, endsOf edge = l.ends) :
    ∃ links : List Link, links.Nodup ∧ m.edges.map endsOf = links.map Link.ends := by
  let text : Json → String := fun v ↦ v.asStr?.getD ""
  let link : Json → Link :=
    fun e ↦ ⟨text (endsOf e).kind, text (endsOf e).source, text (endsOf e).target⟩
  have hlink (e : Json) (he : e ∈ m.edges) : endsOf e = (link e).ends := by
    obtain ⟨l, hl⟩ := htexts e he
    simp [link, text, Link.ends, asStr?, hl]
  have hkeys : (m.edges.map link).map (fun l ↦ linkKey? l.ends) = m.seen.reverse.map some := by
    rw [← h.keyed, map_map]
    refine map_congr_left fun e he ↦ ?_
    rw [Function.comp_apply, ← hlink e he]
  refine ⟨m.edges.map link, ?_, ?_⟩
  · have hdistinct : (m.seen.reverse.map some).Nodup :=
      (nodup_reverse.2 h.distinct).map (Option.some_injective _)
    rw [← hkeys] at hdistinct
    exact hdistinct.of_map
  · rw [map_map]
    exact map_congr_left hlink

/-- A merged graph is sound for the fragments it comes from, with the given node ids and edges. -/
structure IsSound (fragments : List Fragment) (merged : Json) (ids : List String)
    (links : List Link) : Prop where
  nodes : ∃ nodes, nodesOf merged = .ok nodes ∧
    nodes.map (·.member? "id") = ids.map fun id ↦ some (.str id)
  edges : ∃ edges, edgesOf merged = .ok edges ∧ edges.map endsOf = links.map Link.ends
  /-- No two nodes share an id. -/
  ids_nodup : ids.Nodup
  /-- Every node of a fragment has a canonical id. -/
  assigned : ∀ n ∈ allNodes fragments, ∃ id, assignedId n = .ok (.str id)
  /-- The ids are the canonical ids of the nodes of the fragments. -/
  mem_ids : ∀ id, id ∈ ids ↔ ∃ n ∈ allNodes fragments, assignedId n = .ok (.str id)
  /-- No two edges share their kind and both ends. -/
  links_nodup : links.Nodup
  /-- No edge dangles. -/
  joins : ∀ l ∈ links, l.source ∈ ids ∧ l.target ∈ ids

/-- Merging fragments that pass the check gives a sound graph. -/
theorem isSound_merge {nodeSchema : Json} {edgeTypes : Table String Json}
    {fragments : List Fragment} {merged : Json}
    (hpass : ∀ f ∈ fragments, f.Passes nodeSchema edgeTypes) (h : merge fragments = .ok merged) :
    ∃ ids links, IsSound fragments merged ids links := by
  obtain ⟨filed, linked, hfiled, hlinked, hnodes, hedges⟩ := merge_spec h
  obtain ⟨ids, hkeys, hids⟩ := hfiled.labelled.exists_texts
  have hdistinct : ids.Nodup := (hkeys ▸ hfiled.distinct).of_map
  have hmem (id : String) : Key.str id ∈ filed.byId.keys ↔ id ∈ ids := by
    rw [hkeys]
    simp
  have hends (edge : Json) (hedge : edge ∈ linked.edges) :
      ∃ l : Link, endsOf edge = l.ends ∧ l.source ∈ ids ∧ l.target ∈ ids := by
    obtain ⟨e, he, hedge⟩ := hlinked.sound edge hedge
    obtain ⟨f, hf, he⟩ := mem_flatMap.1 he
    obtain ⟨l, hl, hsource, htarget⟩ := redirected_of_passes hfiled hf (hpass f hf) he
    exact ⟨l, hedge.trans hl, (hmem _).1 hsource, (hmem _).1 htarget⟩
  obtain ⟨links, hlinks, hlinkEnds⟩ := hlinked.exists_links fun edge hedge ↦ by
    obtain ⟨l, hl, -, -⟩ := hends edge hedge
    exact ⟨l, hl⟩
  refine ⟨ids, links, ⟨_, hnodes, hids⟩, ⟨_, hedges, hlinkEnds⟩, hdistinct, hfiled.assigned,
    fun id ↦ ?_, hlinks, fun l hl ↦ ?_⟩
  · rw [← hmem, hfiled.mem_keys]
    constructor
    · rintro ⟨n, hn, id', hid', heq⟩
      cases heq
      exact ⟨n, hn, hid'⟩
    · rintro ⟨n, hn, hid⟩
      exact ⟨n, hn, id, hid, rfl⟩
  · have hlmem : l.ends ∈ linked.edges.map endsOf := by
      rw [hlinkEnds]
      exact mem_map_of_mem hl
    obtain ⟨edge, hedge, hedgeEnds⟩ := mem_map.1 hlmem
    obtain ⟨l', hl', hsource, htarget⟩ := hends edge hedge
    rw [hl'] at hedgeEnds
    cases l
    cases l'
    cases hedgeEnds
    exact ⟨hsource, htarget⟩

/-- Two fragments that share a file and a class. -/
def shopFragments : List Fragment :=
  [⟨"fragment_python.json", .ok (.obj [
      ("nodes", .arr [
        .obj [("id", .str "app.py"), ("type", .str "File"), ("name", .str "app.py"),
          ("file_path", .str "app.py")],
        .obj [("id", .str "app.py::Shop"), ("type", .str "Class"), ("name", .str "Shop")]]),
      ("edges", .arr [
        .obj [("from", .str "app.py"), ("to", .str "app.py::Shop"), ("edge", .str "defines")]])])⟩,
    ⟨"fragment_html.json", .ok (.obj [
      ("nodes", .arr [
        .obj [("type", .str "File"), ("name", .str "page"), ("file_path", .str "app.py")],
        .obj [("id", .str "app.py::Shop"), ("type", .str "Class"), ("name", .str "Store")]]),
      ("edges", .arr [
        .obj [("from", .str "page"), ("to", .str "app.py::Shop"), ("edge", .str "defines")]])])⟩]

def shopNodeSchema : Json := .obj [("File", .null), ("Class", .null)]

def shopEdgeTypes : Table String Json :=
  [("defines", .obj [("from", .arr [.str "File"]), ("to", .arr [.str "Class"])])]

lemma shopFragments_pass : ∀ f ∈ shopFragments, f.Passes shopNodeSchema shopEdgeTypes := by
  intro f hf
  simp only [shopFragments, mem_cons, not_mem_nil, or_false] at hf
  rcases hf with rfl | rfl <;> exact ⟨_, _, rfl, rfl, by cbv⟩

theorem isSound_merge_shopFragments :
    (∀ f ∈ shopFragments, f.Passes shopNodeSchema shopEdgeTypes) ∧
      ∃ merged, merge shopFragments = .ok merged ∧
        ∃ ids links, IsSound shopFragments merged ids links :=
  ⟨shopFragments_pass, _, rfl, isSound_merge shopFragments_pass rfl⟩

end CodeAtlas.Graph

namespace CodeAtlas.Table

open List Table

variable {κ β : Type} [DecidableEq κ]
variable {t u : Table κ β}

lemma merge_append (t u v : Table κ β) : t.merge (u ++ v) = (t.merge u).merge v := foldl_append

lemma get?_merge_eq (t u : Table κ β) (key : κ) :
    (t.merge u).get? key = ((ofList u).get? key).or (t.get? key) := by
  induction u using reverseRecOn with
  | nil => rfl
  | append_singleton u e ih =>
    have hput : t.merge (u ++ [e]) = (t.merge u).put e.1 e.2 := merge_append t u [e]
    rw [hput, ofList_concat, get?_put, get?_put, ih]
    split <;> rfl

lemma keys_merge_of_subset (h : u.keys ⊆ t.keys) : (t.merge u).keys = t.keys := by
  induction u generalizing t with
  | nil => rfl
  | cons e rest ih =>
    rw [keys, map_cons, cons_subset] at h
    have hput := keys_put_of_mem h.1 e.2
    exact (ih (hput ▸ h.2)).trans hput

lemma eq_of_get?_eq (hkeys : t.keys = u.keys) (hnodup : t.keys.Nodup)
    (h : ∀ key, t.get? key = u.get? key) : t = u := by
  have hentries {t : Table κ β} (h : t.keys.Nodup) :
      t.keys.map (fun k ↦ (k, t.get? k)) = t.map (Prod.map id some) := by
    rw [keys, map_map]
    exact map_congr_left fun e he ↦ Prod.ext rfl (get?_of_mem h he)
  refine map_injective_iff.2 (Function.injective_id.prodMap (Option.some_injective β)) ?_
  rw [← hentries hnodup, ← hentries (hkeys ▸ hnodup), hkeys, funext h]

lemma merge_self (h : t.keys.Nodup) (u : Table κ β) : (t.merge u).merge u = t.merge u := by
  have hkeys : ((t.merge u).merge u).keys = (t.merge u).keys :=
    keys_merge_of_subset fun _ hk ↦ mem_keys_merge.2 (.inr hk)
  refine eq_of_get?_eq hkeys (hkeys ▸ nodup_keys_merge h u) fun k ↦ ?_
  rw [get?_merge_eq, get?_merge_eq t, ← Option.or_assoc, Option.or_self]

end CodeAtlas.Table

namespace CodeAtlas.Graph

open Fallible List Table

lemma foldlM_of_forall {ε α β : Type} {f : β → α → Except ε β} {b : β} {xs : List α}
    (h : ∀ x ∈ xs, f b x = .ok b) : xs.foldlM f b = .ok b := by
  induction xs with
  | nil => rfl
  | cons x xs ih =>
    obtain ⟨hx, hrest⟩ := forall_mem_cons.1 h
    exact bind_eq_ok.2 ⟨b, hx, ih hrest⟩

namespace Merge

/-- Writes what a record lists, one entry after the other. -/
def Nodes.write (m w : Nodes) : Nodes :=
  ⟨m.byId.merge w.byId, m.idOf.merge w.idOf, m.ambiguities ++ w.ambiguities⟩

def Nodes.append (w w' : Nodes) : Nodes :=
  ⟨w.byId ++ w'.byId, w.idOf ++ w'.idOf, w.ambiguities ++ w'.ambiguities⟩

lemma Nodes.write_write (m w w' : Nodes) : (m.write w).write w' = m.write (w.append w') := by
  simp [write, append, merge_append]

/-- Steps that write the same wherever they are taken, if they can be taken anywhere. -/
def Steady {α : Type} (step : Nodes → α → Except Fault Nodes) : Prop :=
  ∀ x m m', step m x = .ok m' → ∃ w, ∀ m, step m x = .ok (m.write w)

lemma Steady.foldlM {α : Type} {f : Nodes → α → Except Fault Nodes} (h : Steady f) :
    Steady fun m (xs : List α) ↦ xs.foldlM f m := by
  intro xs
  induction xs with
  | nil =>
    refine fun _ _ _ ↦ ⟨{}, fun m ↦ congrArg Except.ok ?_⟩
    rw [Nodes.write, append_nil]
    rfl
  | cons x xs ih =>
    intro m m' hrun
    obtain ⟨middle, hx, hrest⟩ := bind_eq_ok.1 hrun
    obtain ⟨w, hw⟩ := h x m middle hx
    obtain ⟨w', hw'⟩ := ih middle m' hrest
    refine ⟨w.append w', fun m ↦ bind_eq_ok.2 ⟨_, hw m, ?_⟩⟩
    rw [← Nodes.write_write]
    exact hw' _

lemma steady_addNode : Steady addNode := by
  intro n m m' h
  simp only [addNode, bind_eq_ok] at h
  obtain ⟨type, htype, name, hname, raw, hraw, id, hid, idKey, hidKey, nameKey, hnameKey, h⟩ := h
  let node := ((n.setMember "id" id).setMember "node_type" type).setMember "type" type
  -- The raw id is noted after the name, if there is one.
  split at h
  next htruthy =>
    obtain ⟨rawKey, hrawKey, -⟩ := bind_eq_ok.1 h
    refine ⟨⟨[(idKey, node)], [(nameKey, id), (rawKey, id)], []⟩, fun m ↦ ?_⟩
    simp only [addNode, htype, hname, hraw, hid, hidKey, hnameKey, htruthy, hrawKey, if_true,
      bind, Except.bind, Nodes.write, append_nil]
    rfl
  next hfalsy =>
    refine ⟨⟨[(idKey, node)], [(nameKey, id)], []⟩, fun m ↦ ?_⟩
    simp only [addNode, htype, hname, hraw, hid, hidKey, hnameKey, hfalsy, bind,
      Except.bind, Nodes.write, append_nil]
    rfl

lemma steady_addFragment : Steady addFragment := by
  intro f m m' h
  obtain ⟨g, tickets, hg, hnodes, htickets, hrun⟩ := addFragment_eq_ok h
  obtain ⟨w, hw⟩ := steady_addNode.foldlM f.nodes _ m' hrun
  refine ⟨Nodes.append ⟨[], [], tickets⟩ w, fun m ↦ ?_⟩
  rw [← Nodes.write_write, ← hw]
  obtain ⟨listed, hlisted, htickets⟩ := bind_eq_ok.1 htickets
  obtain ⟨all, hall, hnodes⟩ := bind_eq_ok.1 hnodes
  simp only [addFragment, hg, hlisted, htickets, hall, hnodes, bind, Except.bind]
  rfl

/-- Every edge has its like among the linked ones, so that none is added. -/
lemma addFragmentEdges_again {idOf : Table Key Json} {fragments : List Fragment} {m : Edges}
    (h : fragments.foldlM (addFragmentEdges idOf) {} = .ok m) :
    ∀ f ∈ fragments, addFragmentEdges idOf m f = .ok m := by
  intro f hf
  have hlinked := edgesLinked_of_run h
  obtain ⟨c, c', hrun⟩ := exists_step_of_mem h hf
  obtain ⟨g, hg, hedges, hrun⟩ := addFragmentEdges_eq_ok hrun
  have hstep : ∀ e ∈ f.edges, addEdge idOf m e = .ok m := by
    intro e he
    obtain ⟨d, d', hadd⟩ := exists_step_of_mem hrun he
    obtain ⟨key, hkey, hadd⟩ := addEdge_spec hadd
    obtain ⟨edge, hedge, key', hlike, hkey'⟩ := hlinked.complete e (mem_flatMap.2 ⟨f, hf, he⟩)
    have hseen : some key ∈ m.seen.reverse.map some := by
      rw [← hlinked.keyed, ← hkey, hkey', ← hlike]
      exact mem_map_of_mem hedge
    rw [hadd m, if_pos (by simpa using hseen)]
  obtain ⟨listed, hlisted, hedges⟩ := bind_eq_ok.1 hedges
  simp only [addFragmentEdges, hg, hlisted, hedges, bind, Except.bind]
  exact foldlM_of_forall hstep

end Merge

/-- Merging the same fragments again gives the same nodes and edges, in the same order. -/
theorem merge_repeated {fragments : List Fragment} {merged : Json}
    (h : merge fragments = .ok merged) : ∃ again, merge (fragments ++ fragments) = .ok again ∧
      again.member? "nodes" = merged.member? "nodes" ∧ again.member? "edges" =
      merged.member? "edges" := by
  simp only [merge, bind_eq_ok, pure_eq_ok] at h
  obtain ⟨filed, hfiled, linked, hlinked, rfl⟩ := h
  obtain ⟨w, hw⟩ := Merge.steady_addFragment.foldlM fragments {} filed hfiled
  obtain rfl : Merge.Nodes.write {} w = filed := Except.ok.inj ((hw {}).symm.trans hfiled)
  have hnodes : (fragments ++ fragments).foldlM Merge.addFragment {} =
      .ok ((Merge.Nodes.write {} w).write w) := by
    rw [foldlM_append, hfiled]
    exact hw _
  have hbyId : ((Merge.Nodes.write {} w).write w).byId = (Merge.Nodes.write {} w).byId :=
    merge_self (t := []) nodup_nil w.byId
  have hidOf : ((Merge.Nodes.write {} w).write w).idOf = (Merge.Nodes.write {} w).idOf :=
    merge_self (t := []) nodup_nil w.idOf
  have hedges : (fragments ++ fragments).foldlM
      (Merge.addFragmentEdges ((Merge.Nodes.write {} w).write w).idOf) {} = .ok linked := by
    rw [hidOf, foldlM_append, hlinked]
    exact foldlM_of_forall (Merge.addFragmentEdges_again hlinked)
  refine ⟨_, bind_eq_ok.2 ⟨_, hnodes, bind_eq_ok.2 ⟨_, hedges, rfl⟩⟩, ?_, rfl⟩
  rw [hbyId]
  rfl

theorem merge_repeated_shopFragments : ∃ merged again, merge shopFragments = .ok merged ∧
    merge (shopFragments ++ shopFragments) = .ok again ∧
      again.member? "nodes" = merged.member? "nodes" ∧ again.member? "edges" =
      merged.member? "edges" := by
  obtain ⟨again, hagain, hnodes, hedges⟩ :=
    merge_repeated (show merge shopFragments = .ok _ from rfl)
  exact ⟨_, again, rfl, hagain, hnodes, hedges⟩

end CodeAtlas.Graph
