import CodeAtlas.Graph.Equivalence
import CodeAtlas.Proofs.NodeTables
import CodeAtlas.Proofs.SameDocuments

/-!
# Outlines of graphs

The guard of structure compares what is left of two graphs when all is left out but the number of
nodes, the kind of the last node under each id, the texts of edges and the number of tickets. So
what it accepts is a relation between such outlines, symmetric and transitive, and it does not see
the order of edges, the other members of nodes or, if ids are distinct, the order of nodes.
-/

namespace CodeAtlas

open Fallible List Json Table

namespace Graph.Equivalence

variable {index : Table Key (Json × Json)}
variable {g : Json} {nodes : List Json}

/-- The kind of a node, by the name that the guard looks at. -/
def typeOf (n : Json) : Json := (n.member? "type").getD .null

def edgeTexts (g : Json) : Except Fault (List String) := do
  (← (← g.getD "edges" (.arr [])).elements).mapM edgeText

def ticketCount (g : Json) : Except Fault Nat := do (← g.getD "ambiguities" (.arr [])).size

def mark (n : Json) : Option Key × Json := ((n.member? "id").bind Json.key?, typeOf n)

def kindUnder (nodes : List Json) (k : Key) : Option Json := lastUnder mark nodes k

/-- Both kinds are missing, or both are there and the same. -/
def Alike (kind kind' : Option Json) : Prop := Option.Rel (fun a b ↦ a.same b = true) kind kind'

lemma alike_some {a b : Json} : Alike (some a) (some b) ↔ a.same b = true := Option.rel_some_some

lemma Alike.symm {kind kind' : Option Json} (hkind : ∀ t, kind = some t → t.Distinct)
    (hkind' : ∀ t, kind' = some t → t.Distinct) (h : Alike kind kind') : Alike kind' kind := by
  cases h with
  | none => exact .none
  | some hsame => exact .some (same_symm (hkind _ rfl) (hkind' _ rfl) hsame)

lemma Alike.trans {kind kind' kind'' : Option Json} (h : Alike kind kind')
    (h' : Alike kind' kind'') : Alike kind kind'' := by
  cases h with
  | none => exact h'
  | some hsame =>
    cases h' with
    | some hsame' => exact .some (same_trans hsame hsame')

/-- Nodes are found by the keys of their ids, and of those under one key the last. -/
lemma exists_indexed (hids : ∀ n ∈ nodes, hasKey n "id") :
    ∃ index, indexed nodes = .ok index ∧ index.keys.Nodup ∧ (∀ e ∈ index, e.2.2.IsObject) ∧
      ∀ k, (index.get? k).map (typeOf ·.2) = kindUnder nodes k := by
  obtain ⟨index, hindex⟩ : ∃ index, indexed nodes = .ok index := by
    refine foldlM_succeeds (fun index n hn ↦ ?_) []
    obtain ⟨id, k, hid, hk⟩ := exists_of_hasKey (hids n hn)
    simp only [need_eq_ok.2 hid, key_eq_ok.2 hk, bind, Except.bind]
    exact ⟨_, rfl⟩
  refine ⟨index, hindex, foldlM_invariant (fun met (index : Table Key (Json × Json)) ↦
    index.keys.Nodup ∧ (∀ e ∈ index, e.2.2.IsObject) ∧
      ∀ k, (index.get? k).map (typeOf ·.2) = kindUnder met k) ?_
    (by simp [Table.keys, kindUnder, lastUnder]) hindex⟩
  rintro met index n index' ⟨hnodup, hobjects, hkinds⟩ hstep
  simp only [bind_eq_ok, pure_eq_ok, need_eq_ok, key_eq_ok] at hstep
  obtain ⟨id, hid, k, hk, rfl⟩ := hstep
  refine ⟨nodup_keys_put hnodup k _, fun e he ↦ ?_, fun k' ↦ ?_⟩
  · rcases mem_put he with rfl | he
    · exact isObject_of_member? hid
    · exact hobjects e he
  · have hmark : (mark n).1 = some k := by rw [mark, hid, Option.bind_some, hk]
    rw [kindUnder, lastUnder_concat mark met hmark, ← kindUnder, ← hkinds, get?_put]
    split <;> rfl

lemma checkKept_eq_nil {k : Key} {shown n : Json} : checkKept index (k, shown, n) = .ok [] ↔
      n.IsObject ∧ ∃ m, (index.get? k).map Prod.snd = some m ∧ m.IsObject ∧
        (typeOf n).same (typeOf m) = true := by
  rw [checkKept]
  cases index.get? k with
  | none => simp [pure_eq_ok]
  | some e =>
    simp only [bind_eq_ok, get_eq_ok, Option.map_some, Option.some.injEq, exists_eq_left']
    constructor
    · rintro ⟨before, ⟨hn, rfl⟩, after, ⟨hm, rfl⟩, h⟩
      refine ⟨hn, hm, ?_⟩
      split at h
      next hsame => exact hsame
      next => cases pure_eq_ok.1 h
    · rintro ⟨hn, hm, hsame⟩
      exact ⟨_, ⟨hn, rfl⟩, _, ⟨hm, rfl⟩, if_pos hsame⟩

lemma countMismatch_eq_nil {type detail : String} {a b : Nat} :
    countMismatch type detail a b = [] ↔ a = b := by
  rw [countMismatch]
  split <;> simp [*]

lemma inOrder_map_eq_nil {type : String} {texts others : List String} {f : String → String} :
    inOrder type ((missingFrom texts others).map f) = [] ↔ texts ⊆ others := by
  rw [inOrder, map_eq_nil_iff, ← length_eq_zero_iff, length_mergeSort,
    length_map, length_eq_zero_iff, eq_nil_iff_forall_not_mem]
  simp only [missingFrom, mem_eraseDups, mem_filter, Bool.not_eq_true',
    contains_eq_mem, decide_eq_false_iff_not, not_and, not_not]
  rfl

/-- No node is complained about just if both graphs have the same kinds under the same keys. -/
lemma alike_iff {done : List Json} {rawMap newMap : Table Key (Json × Json)}
    (hdistinct : rawMap.keys.Nodup) (hraw : ∀ e ∈ rawMap, e.2.2.IsObject)
    (hnew : ∀ e ∈ newMap, e.2.2.IsObject)
    (hkinds : ∀ k, (rawMap.get? k).map (typeOf ·.2) = kindUnder nodes k)
    (hkinds' : ∀ k, (newMap.get? k).map (typeOf ·.2) = kindUnder done k)
    {f : Key × Json × Json → Violation} : ((∀ e ∈ rawMap, checkKept newMap e = .ok []) ∧
      (newMap.filterMap fun e ↦ if rawMap.contains e.1 then none else some (f e)) = []) ↔
      ∀ k, Alike (kindUnder nodes k) (kindUnder done k) := by
  have hadded : (newMap.filterMap fun e ↦ if rawMap.contains e.1 then none else some (f e)) = [] ↔
      ∀ k ∈ newMap.keys, k ∈ rawMap.keys := by
    simp only [filterMap_eq_nil_iff, ← contains_iff (t := rawMap)]
    simp [Table.keys]
  rw [hadded]
  simp only [← hkinds, ← hkinds', Alike]
  constructor
  · rintro ⟨hkept, hold⟩ k
    cases hn : rawMap.get? k with
    | none =>
      rw [get?_eq_none_iff.2 fun hk ↦ get?_eq_none_iff.1 hn (hold k hk)]
      exact .none
    | some n =>
      obtain ⟨-, m, hm, -, hsame⟩ := checkKept_eq_nil.1 (hkept (k, n) (mem_of_get? hn))
      obtain ⟨e, he, rfl⟩ := Option.map_eq_some_iff.1 hm
      rw [he]
      exact .some hsame
  · intro h
    refine ⟨fun e he ↦ ?_, fun k hk ↦ ?_⟩
    · obtain ⟨k, shown, n⟩ := e
      have hrel := h k
      rw [get?_of_mem hdistinct he] at hrel
      cases hm : newMap.get? k with
      | none => rw [hm] at hrel; cases hrel
      | some m =>
        rw [hm] at hrel
        cases hrel with
        | some hsame =>
          exact checkKept_eq_nil.2 ⟨hraw _ he, m.2, by rw [hm]; rfl, hnew _ (mem_of_get? hm), hsame⟩
    · have hrel := h k
      obtain ⟨m, hm⟩ := exists_of_mem_keys hk
      rw [hm] at hrel
      by_contra hnone
      rw [get?_eq_none_iff.2 hnone] at hrel
      cases hrel

lemma kindUnder_values {t : Table Key Json} (hdistinct : t.keys.Nodup) (hidentified : Identified t)
    (k : Key) : kindUnder t.values k = (t.get? k).map typeOf := by
  have hmark {k : Key} {n : Json} (hn : (k, n) ∈ t) : mark n = (some k, typeOf n) := by
    obtain ⟨id, hid, hk⟩ := hidentified k n hn
    rw [mark, hid, Option.bind_some, hk]
  have hkeys : keys (t.values.map mark).reverse = (t.keys.map some).reverse := by
    rw [Table.keys, Table.values, Table.keys, map_reverse, map_map, map_map, map_map]
    exact congrArg List.reverse (map_congr_left fun e he ↦ congrArg Prod.fst (hmark he))
  cases hn : t.get? k with
  | none =>
    refine get?_eq_none_iff.2 ?_
    rw [hkeys, mem_reverse, mem_map_of_injective (Option.some_injective _)]
    exact get?_eq_none_iff.1 hn
  | some n =>
    have hmem := mem_of_get? hn
    refine get?_of_mem ?_ (mem_reverse.2 (mem_map.2 ⟨n, mem_map.2 ⟨_, hmem, rfl⟩, hmark hmem⟩))
    rw [hkeys, nodup_reverse]
    exact hdistinct.map (Option.some_injective _)

lemma nodesOf_eq_ok : nodesOf g = .ok nodes ↔
    ∃ v, g.getD "nodes" (.arr []) = .ok v ∧ v.elements = .ok nodes := bind_eq_ok

lemma checkKept_succeeds {e : Key × Json × Json} (he : e.2.2.IsObject)
    (hindex : ∀ e ∈ index, e.2.2.IsObject) : ∃ vs, checkKept index e = .ok vs := by
  rw [checkKept]
  cases hm : index.get? e.1 with
  | none => exact ⟨_, rfl⟩
  | some m =>
    simp only [get_eq_ok.2 ⟨he, rfl⟩, get_eq_ok.2 ⟨hindex _ (mem_of_get? hm), rfl⟩,
      bind, Except.bind]
    split <;> exact ⟨_, rfl⟩

section

variable {raw : Json} {done : List Json}
  (hraw : nodesOf raw = .ok nodes) (hg : nodesOf g = .ok done) (hids : ∀ n ∈ nodes, hasKey n "id")
  (hids' : ∀ n ∈ done, hasKey n "id")
include hraw hg hids hids'

/-- The guard accepts a graph just if it has as many nodes as the raw one, the same kinds under the
same keys, the same edges and as many tickets. -/
lemma violations_eq_nil_iff :
    violations raw g = .ok [] ↔
      nodes.length = done.length ∧ (∀ k, Alike (kindUnder nodes k) (kindUnder done k)) ∧
      (∃ texts texts', edgeTexts raw = .ok texts ∧ edgeTexts g = .ok texts' ∧
        texts ⊆ texts' ∧ texts' ⊆ texts) ∧
      ∃ count, ticketCount raw = .ok count ∧ ticketCount g = .ok count := by
  obtain ⟨rawNodes, hrawGet, hrawElements⟩ := nodesOf_eq_ok.1 hraw
  obtain ⟨newNodes, hnewGet, hnewElements⟩ := nodesOf_eq_ok.1 hg
  have hrawSize := size_of_elements hrawElements
  have hnewSize := size_of_elements hnewElements
  obtain ⟨rawMap, hrawMap, hdistinct, hobjects, hkinds⟩ := exists_indexed hids
  obtain ⟨newMap, hnewMap, -, hobjects', hkinds'⟩ := exists_indexed hids'
  rw [← alike_iff hdistinct hobjects hobjects' hkinds hkinds', ← mapM_flatten_eq_nil_iff]
  simp only [violations, edgeTexts, ticketCount, bind_eq_ok, pure_eq_ok, hrawGet, hnewGet, hrawSize,
    hnewSize, hrawElements, hnewElements, hrawMap, hnewMap, Except.ok.injEq, exists_eq_left',
    append_eq_nil_iff, countMismatch_eq_nil, inOrder_map_eq_nil]
  constructor
  · rintro ⟨kept, hkept, rawEdges, hrawEdges, newEdges, hnewEdges, -, -, -, -, rawItems, hrawItems,
      rawTexts, hrawTexts, newItems, hnewItems, newTexts, hnewTexts, rawTickets, hrawTickets,
      rawCount, hrawCount, newTickets, hnewTickets, newCount, hnewCount,
      ⟨⟨⟨⟨hlength, hflat⟩, hadded⟩, hlost⟩, hgained⟩, rfl⟩
    refine ⟨hlength, ⟨⟨kept, hkept, hflat⟩, hadded⟩, ?_, ?_⟩
    · exact ⟨rawTexts, newTexts, ⟨rawEdges, hrawEdges, rawItems, hrawItems, hrawTexts⟩,
        ⟨newEdges, hnewEdges, newItems, hnewItems, hnewTexts⟩, hlost, hgained⟩
    · exact ⟨rawCount, ⟨rawTickets, hrawTickets, hrawCount⟩, newTickets, hnewTickets, hnewCount⟩
  · rintro ⟨hlength, ⟨⟨kept, hkept, hflat⟩, hadded⟩,
      ⟨rawTexts, newTexts, ⟨rawEdges, hrawEdges, rawItems, hrawItems, hrawTexts⟩,
        ⟨newEdges, hnewEdges, newItems, hnewItems, hnewTexts⟩, hlost, hgained⟩,
      count, ⟨rawTickets, hrawTickets, hrawCount⟩, newTickets, hnewTickets, hnewCount⟩
    exact ⟨kept, hkept, rawEdges, hrawEdges, newEdges, hnewEdges, _,
      size_of_elements hrawItems, _, size_of_elements hnewItems, rawItems, hrawItems,
      rawTexts, hrawTexts, newItems, hnewItems, newTexts, hnewTexts, rawTickets, hrawTickets, count,
      hrawCount, newTickets, hnewTickets, count, hnewCount,
      ⟨⟨⟨⟨hlength, hflat⟩, hadded⟩, hlost⟩, hgained⟩, rfl⟩

/-- The guard comes to an answer if edges can be named and tickets counted. -/
lemma exists_violations {texts texts' : List String} {count count' : Nat}
    (htexts : edgeTexts raw = .ok texts) (htexts' : edgeTexts g = .ok texts')
    (hcount : ticketCount raw = .ok count) (hcount' : ticketCount g = .ok count') :
    ∃ vs, violations raw g = .ok vs := by
  obtain ⟨rawNodes, hrawGet, hrawElements⟩ := nodesOf_eq_ok.1 hraw
  obtain ⟨newNodes, hnewGet, hnewElements⟩ := nodesOf_eq_ok.1 hg
  obtain ⟨rawMap, hrawMap, -, hobjects, -⟩ := exists_indexed hids
  obtain ⟨newMap, hnewMap, -, hobjects', -⟩ := exists_indexed hids'
  obtain ⟨kept, hkept⟩ :=
    exists_mapM_of_forall fun e he ↦ checkKept_succeeds (hobjects e he) hobjects'
  simp only [edgeTexts, ticketCount, bind_eq_ok] at htexts htexts' hcount hcount'
  obtain ⟨rawEdges, hrawEdges, rawItems, hrawItems, hrawTexts⟩ := htexts
  obtain ⟨newEdges, hnewEdges, newItems, hnewItems, hnewTexts⟩ := htexts'
  obtain ⟨rawTickets, hrawTickets, hrawCount⟩ := hcount
  obtain ⟨newTickets, hnewTickets, hnewCount⟩ := hcount'
  simp only [violations, hrawGet, hnewGet, size_of_elements hrawElements,
    size_of_elements hnewElements, hrawElements, hnewElements, hrawMap, hnewMap, hkept, hrawEdges,
    hnewEdges, size_of_elements hrawItems, size_of_elements hnewItems, hrawItems, hnewItems,
    hrawTexts, hnewTexts, hrawTickets, hnewTickets, hrawCount, hnewCount, bind, Except.bind]
  exact ⟨_, rfl⟩

end

/-- A text for a member of an edge. -/
def shown (e : Json) (name : String) : String := ((e.member? name).map Json.display).getD ""

/-- The text for an edge with both ends and a type. -/
def linkText (e : Json) : String := shown e "source" ++ "->" ++ shown e "target" ++
    "|" ++ shown e "type"

/-- What a graph holds, as far as the guard looks at it. -/
structure Outline where
  nodes : List Json
  edges : List Json
  tickets : Nat

/-- A graph that can be compared. Its nodes have ids that can serve as keys, and kinds in which no
object names a member twice; its edges have both ends and a type. -/
structure Outlined (g : Json) (o : Outline) : Prop where
  nodes : nodesOf g = .ok o.nodes
  identified : ∀ n ∈ o.nodes, hasKey n "id"
  kinds : ∀ n ∈ o.nodes, (typeOf n).Distinct
  edges : edgesOf g = .ok o.edges
  complete : ∀ e ∈ o.edges, ∀ name ∈ ["source", "target", "type"], (e.member? name).isSome
  tickets : ticketCount g = .ok o.tickets

lemma Outlined.edgeTexts {o : Outline} (h : Outlined g o) :
    edgeTexts g = .ok (o.edges.map linkText) := by
  have hmap : o.edges.mapM edgeText = .ok (o.edges.map linkText) := by
    refine mapM_of_forall fun e he ↦ ?_
    obtain ⟨source, hsource⟩ := Option.isSome_iff_exists.1 (h.complete e he "source" (by simp))
    obtain ⟨target, htarget⟩ := Option.isSome_iff_exists.1 (h.complete e he "target" (by simp))
    obtain ⟨type, htype⟩ := Option.isSome_iff_exists.1 (h.complete e he "type" (by simp))
    simp only [edgeText, need_eq_ok.2 hsource, need_eq_ok.2 htarget, need_eq_ok.2 htype,
      linkText, shown, hsource, htarget, htype, bind, Except.bind]
    rfl
  obtain ⟨v, hv, hitems⟩ := bind_eq_ok.1 h.edges
  simp only [Equivalence.edgeTexts, bind_eq_ok]
  exact ⟨v, hv, o.edges, hitems, hmap⟩

/-- Two graphs have as many nodes, the same kinds under the same keys, edges with the same texts,
and as many tickets. -/
@[mk_iff]
structure Outline.Agrees (o o' : Outline) : Prop where
  size : o.nodes.length = o'.nodes.length
  kinds : ∀ k, Alike (kindUnder o.nodes k) (kindUnder o'.nodes k)
  texts : ∀ t, t ∈ o.edges.map linkText ↔ t ∈ o'.edges.map linkText
  tickets : o.tickets = o'.tickets

/-- The nodes of one graph are those of the other, as far as keys and kinds go; if the keys are
distinct, in any order. The edges are the same in any order, and the tickets as many. -/
structure Outline.Rearranged (o o' : Outline) : Prop where
  marks : o.nodes.map mark = o'.nodes.map mark ∨
    (o.nodes.map mark).Perm (o'.nodes.map mark) ∧ (keys (o.nodes.map mark)).Nodup
  edges : o.edges.Perm o'.edges
  tickets : o.tickets = o'.tickets

section

variable {A B C : Json} {a b c : Outline}

lemma accepts_iff (ha : Outlined A a) (hb : Outlined B b) :
    violations A B = .ok [] ↔ a.Agrees b := by
  rw [violations_eq_nil_iff ha.nodes hb.nodes ha.identified hb.identified,
    ha.edgeTexts, hb.edgeTexts, ha.tickets, hb.tickets]
  simp only [Except.ok.injEq, exists_and_left, exists_eq_left']
  constructor
  · rintro ⟨hsize, hkinds, ⟨hlost, hgained⟩, htickets⟩
    exact ⟨hsize, hkinds, fun t ↦ ⟨fun ht ↦ hlost ht, fun ht ↦ hgained ht⟩, htickets.symm⟩
  · rintro ⟨hsize, hkinds, htexts, htickets⟩
    exact ⟨hsize, hkinds, ⟨fun t ↦ (htexts t).1, fun t ↦ (htexts t).2⟩, htickets.symm⟩

lemma Outlined.distinct_kindUnder (h : Outlined A a) (k : Key) (t : Json)
    (ht : kindUnder a.nodes k = some t) : t.Distinct := by
  obtain ⟨n, hn, heq⟩ := exists_of_lastUnder ht
  obtain rfl : typeOf n = t := congrArg Prod.snd heq
  exact h.kinds n hn

lemma Outline.Agrees.symm (ha : Outlined A a) (hb : Outlined B b) (h : a.Agrees b) : b.Agrees a :=
  ⟨h.size.symm, fun k ↦ (h.kinds k).symm (ha.distinct_kindUnder k) (hb.distinct_kindUnder k),
    fun t ↦ (h.texts t).symm, h.tickets.symm⟩

lemma Outline.Agrees.trans (h : a.Agrees b) (h' : b.Agrees c) : a.Agrees c :=
  ⟨h.size.trans h'.size, fun k ↦ (h.kinds k).trans (h'.kinds k),
    fun t ↦ (h.texts t).trans (h'.texts t), h.tickets.trans h'.tickets⟩

lemma Outline.Rearranged.kindUnder_eq (h : a.Rearranged b) (k : Key) :
    kindUnder a.nodes k = kindUnder b.nodes k := by
  rcases h.marks with heq | ⟨hperm, hnodup⟩
  · rw [kindUnder, kindUnder, lastUnder, lastUnder, heq]
  · refine get?_of_perm ((reverse_perm _).trans (hperm.trans (reverse_perm _).symm)) ?_ _
    rw [Table.keys, map_reverse, nodup_reverse]
    exact hnodup

lemma Outline.Rearranged.agrees_iff (h : a.Rearranged b) :
    (a.Agrees c ↔ b.Agrees c) ∧ (c.Agrees a ↔ c.Agrees b) := by
  have hsize : a.nodes.length = b.nodes.length := by
    rcases h.marks with heq | ⟨hperm, -⟩
    · simpa using congrArg List.length heq
    · simpa using hperm.length_eq
  have htexts (t : String) : t ∈ a.edges.map linkText ↔ t ∈ b.edges.map linkText :=
    (h.edges.map linkText).mem_iff
  simp only [Outline.agrees_iff, hsize, h.kindUnder_eq, htexts, h.tickets, and_self]

/-- The guard always comes to an answer, and accepts just the graphs whose outlines agree. So it
accepts in both directions and through a third graph, and a graph for itself unless a kind in it is
the value that is not a number; and rearranging a graph does not change what it says. -/
theorem verdict_compares_outlines (ha : Outlined A a) (hb : Outlined B b) :
    (∃ vs, violations A B = .ok vs ∧ (vs = [] ↔ a.Agrees b)) ∧
      (violations A A = .ok [] ↔ ∀ k t, kindUnder a.nodes k = some t → t.isNaN = false) ∧
      (violations A B = .ok [] → violations B A = .ok []) ∧
      (∀ C c, Outlined C c → violations A B = .ok [] → violations B C = .ok [] →
        violations A C = .ok []) ∧
      ∀ C c, Outlined C c → a.Rearranged c →
        (violations A B = .ok [] ↔ violations C B = .ok []) ∧
        (violations B A = .ok [] ↔ violations B C = .ok []) := by
  refine ⟨?_, ?_, fun h ↦ ?_, fun C c hc h h' ↦ ?_, fun C c hc h ↦ ?_⟩
  · obtain ⟨vs, hvs⟩ := exists_violations ha.nodes hb.nodes ha.identified hb.identified ha.edgeTexts
      hb.edgeTexts ha.tickets hb.tickets
    refine ⟨vs, hvs, ?_⟩
    rw [← accepts_iff ha hb, hvs, Except.ok.injEq]
  · rw [accepts_iff ha ha, Outline.agrees_iff]
    simp only [true_and, implies_true, and_true, iff_self]
    refine forall_congr' fun k ↦ ?_
    cases hk : kindUnder a.nodes k with
    | none => simp [Alike]
    | some t => simp [alike_some, same_self_iff (ha.distinct_kindUnder k t hk)]
  · exact (accepts_iff hb ha).2 (((accepts_iff ha hb).1 h).symm ha hb)
  · exact (accepts_iff ha hc).2 (((accepts_iff ha hb).1 h).trans ((accepts_iff hb hc).1 h'))
  · rw [accepts_iff ha hb, accepts_iff hc hb, accepts_iff hb ha, accepts_iff hb hc]
    exact h.agrees_iff

end

def sampleNode (id : String) (kind : Json) : Json := .obj [("type", kind), ("id", .str id)]

def sampleEdge (source target : String) : Json :=
  .obj [("source", .str source), ("type", .str "imports"), ("target", .str target)]

def Outline.graph (o : Outline) : Json := .obj [("nodes", .arr o.nodes), ("edges", .arr o.edges)]

lemma Outline.outlined {o : Outline} (hids : ∀ n ∈ o.nodes, hasKey n "id")
    (hkinds : ∀ n ∈ o.nodes, (typeOf n).items = [] ∧ (typeOf n).members = [])
    (hedges : ∀ e ∈ o.edges, ∀ name ∈ ["source", "target", "type"], (e.member? name).isSome)
    (htickets : o.tickets = 0) : Outlined o.graph o :=
  ⟨rfl, hids, fun n hn ↦ .plain (hkinds n hn).1 (hkinds n hn).2, rfl, hedges, htickets ▸ rfl⟩

/-- Two files, the first of which is there twice. -/
def twiceFirst : Outline :=
  ⟨[sampleNode "a" (.str "Module"), sampleNode "b" (.int 1), sampleNode "a" (.str "File")],
    [sampleEdge "a" "b", sampleEdge "b" "a"], 0⟩

/-- The same files, the second of which is there twice. -/
def twiceSecond : Outline :=
  ⟨[sampleNode "b" .null, sampleNode "b" (.bool true), sampleNode "a" (.str "File")],
    [sampleEdge "b" "a", sampleEdge "a" "b", sampleEdge "b" "a"], 0⟩

lemma twiceFirst_agrees : twiceFirst.Agrees twiceSecond := by
  refine ⟨rfl, fun k ↦ ?_, fun t ↦ ?_, rfl⟩
  · by_cases ha : k = .str "a"
    · exact ha ▸ .some rfl
    · by_cases hb : k = .str "b"
      · exact hb ▸ .some rfl
      · have hnone {nodes : List Json} (hkeys : ∀ n ∈ nodes, (mark n).1 = some (.str "a") ∨
            (mark n).1 = some (.str "b")) : kindUnder nodes k = none := by
          refine get?_eq_none_iff.2 fun hk ↦ ?_
          obtain ⟨n, hn, heq⟩ : ∃ n ∈ nodes, (mark n).1 = some k := by simpa [Table.keys] using hk
          rcases hkeys n hn with h | h
          · exact ha (Option.some.inj (heq.symm.trans h))
          · exact hb (Option.some.inj (heq.symm.trans h))
        rw [hnone (by decide), hnone (by decide)]
        exact .none
  · have htexts : twiceFirst.edges.map linkText = ["a->b|imports", "b->a|imports"] := by decide
    have htexts' : twiceSecond.edges.map linkText =
        ["b->a|imports", "a->b|imports", "b->a|imports"] := by decide
    rw [htexts, htexts']
    simp only [mem_cons, not_mem_nil]
    tauto

theorem verdict_compares_outlines_twice :
    Outlined twiceFirst.graph twiceFirst ∧ Outlined twiceSecond.graph twiceSecond ∧
      violations twiceFirst.graph twiceSecond.graph = .ok [] ∧
      violations twiceSecond.graph twiceFirst.graph = .ok [] := by
  have hfirst : Outlined twiceFirst.graph twiceFirst :=
    Outline.outlined (by decide) (by decide) (by decide) rfl
  have hsecond : Outlined twiceSecond.graph twiceSecond :=
    Outline.outlined (by decide) (by decide) (by decide) rfl
  obtain ⟨⟨vs, hvs, hagrees⟩, -, hsymm, -⟩ := verdict_compares_outlines hfirst hsecond
  obtain rfl := hagrees.2 twiceFirst_agrees
  exact ⟨hfirst, hsecond, hvs, hsymm hvs⟩

/-- A node of a kind that is not a number. -/
def numberless : Outline := ⟨[sampleNode "a" (.float Double.nan)], [], 0⟩

/-- A graph is not always accepted for itself. -/
theorem rejects_itself :
    Outlined numberless.graph numberless ∧
    violations numberless.graph numberless.graph ≠ .ok [] := by
  have h : Outlined numberless.graph numberless :=
    Outline.outlined (by decide) (by decide) (by decide) rfl
  refine ⟨h, fun hself ↦ ?_⟩
  have hkind := ((accepts_iff h h).1 hself).kinds (.str "a")
  exact absurd (alike_some.1 hkind) (by decide)

end Graph.Equivalence

end CodeAtlas
