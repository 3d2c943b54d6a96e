import CodeAtlas.Graph.Diff
import CodeAtlas.Proofs.DocumentLaws

/-!
# Graphs as tables of nodes

A graph whose nodes have distinct texts for ids is as good as the table of its nodes under their
ids. Roles are one member of a node; the others make up its structure.
-/

namespace CodeAtlas.Graph

open Fallible List Table Json

variable {k : Key} {n : Json} {name : String}
variable {g : Json} {t : Table Key Json}

/-- Whether there is a member that can serve as a key. -/
def hasKey (v : Json) (name : String) : Bool := ((v.member? name).bind Json.key?).isSome

lemma exists_of_hasKey {v : Json} (h : hasKey v name = true) :
    ∃ w k, v.member? name = some w ∧ w.key? = some k := by
  obtain ⟨k, hk⟩ := Option.isSome_iff_exists.1 h
  obtain ⟨w, hw, hk⟩ := Option.bind_eq_some_iff.1 hk
  exact ⟨w, k, hw, hk⟩

def HasTextId (n : Json) : Prop := ∃ id, n.member? "id" = some (.str id)

lemma HasTextId.isObject (h : HasTextId n) : n.IsObject := by
  obtain ⟨id, hid⟩ := h
  exact isObject_of_member? hid

/-- Every node of a table has a text for an id, and stands under it. -/
def Labelled (t : Table Key Json) : Prop :=
  ∀ k n, (k, n) ∈ t → ∃ id, k = .str id ∧ n.member? "id" = some (.str id)

/-- Whether a node has the text under which it stands for an id. -/
def standsUnderId : Key × Json → Bool
  | (.str id, n) => n.member? "id" = some (.str id)
  | _ => false

lemma labelled_iff : Labelled t ↔ ∀ e ∈ t, standsUnderId e = true := by
  constructor
  · intro h e he
    obtain ⟨id, hk, hid⟩ := h e.1 e.2 he
    obtain ⟨k, n⟩ := e
    subst hk
    simpa [standsUnderId] using hid
  · intro h k n hn
    have hstands := h (k, n) hn
    cases k with
    | str id => exact ⟨id, rfl, by simpa [standsUnderId] using hstands⟩
    | _ => simp [standsUnderId] at hstands

instance decidableLabelled (t : Table Key Json) : Decidable (Labelled t) :=
  decidable_of_iff _ labelled_iff.symm

lemma Labelled.hasTextId (h : Labelled t) (hn : t.get? k = some n) : HasTextId n := by
  obtain ⟨id, -, hid⟩ := h k n (mem_of_get? hn)
  exact ⟨id, hid⟩

lemma Labelled.exists_texts (h : Labelled t) : ∃ ids : List String, t.keys = ids.map Key.str ∧
      t.values.map (·.member? "id") = ids.map fun id ↦ some (.str id) := by
  induction t with
  | nil => exact ⟨[], rfl, rfl⟩
  | cons e rest ih =>
    obtain ⟨id, hk, hid⟩ := h e.1 e.2 mem_cons_self
    obtain ⟨ids, hkeys, hids⟩ := ih fun k n hn ↦ h k n (mem_cons_of_mem _ hn)
    refine ⟨id :: ids, ?_, ?_⟩
    · simpa [Table.keys, hk] using hkeys
    · simpa [values, hid] using hids

def Identified (t : Table Key Json) : Prop :=
  ∀ k n, (k, n) ∈ t → ∃ id, n.member? "id" = some id ∧ id.key? = some k

lemma Labelled.identified (h : Labelled t) : Identified t := by
  intro k n hn
  obtain ⟨id, rfl, hid⟩ := h k n hn
  exact ⟨.str id, hid, key?_str id⟩

lemma Identified.labelled (h : Identified t) (htexts : ∀ k ∈ t.keys, ∃ id, k = .str id) :
    Labelled t := by
  intro k n hn
  obtain ⟨id, hid, hkey⟩ := h k n hn
  obtain ⟨text, rfl⟩ := htexts k (mem_keys_of_mem hn)
  exact ⟨text, rfl, key?_eq_str.1 hkey ▸ hid⟩

/-- What the last of some nodes under a key is marked with. -/
def lastUnder (mark : Json → Option Key × Json) (nodes : List Json) (k : Key) : Option Json :=
  get? (nodes.map mark).reverse (some k)

lemma lastUnder_concat (mark : Json → Option Key × Json) (nodes : List Json)
    (hk : (mark n).1 = some k) (other : Key) : lastUnder mark (nodes ++ [n]) other =
      if other = k then some (mark n).2 else lastUnder mark nodes other := by
  rw [lastUnder, map_append, reverse_append, map_singleton, reverse_singleton,
    singleton_append, get?_cons, hk]
  by_cases heq : other = k
  · rw [if_pos (by rw [heq]), if_pos heq]
  · rw [if_neg fun h ↦ heq (Option.some.inj h).symm, if_neg heq]
    rfl

lemma exists_of_lastUnder {mark : Json → Option Key × Json} {nodes : List Json} {v : Json}
    (h : lastUnder mark nodes k = some v) : ∃ n ∈ nodes, mark n = (some k, v) :=
  mem_map.1 (mem_reverse.1 (mem_of_get? h))

/-- The nodes of a graph, under ids that are distinct. -/
structure Tabled (g : Json) (t : Table Key Json) : Prop where
  nodes : Diff.requiredNodes g = .ok t.values
  distinct : t.keys.Nodup
  identified : Identified t

lemma Tabled.nodesOf_eq (h : Tabled g t) : nodesOf g = .ok t.values := by
  obtain ⟨v, hv, helements⟩ := bind_eq_ok.1 h.nodes
  exact bind_eq_ok.2 ⟨v, getD_of_member? (need_eq_ok.1 hv) _, helements⟩

lemma Tabled.keyed (h : Tabled g t) : ∀ n ∈ t.values, hasKey n "id" := by
  intro n hn
  obtain ⟨⟨k, n⟩, hmem, rfl⟩ := mem_map.1 hn
  obtain ⟨id, hid, hk⟩ := h.identified k n hmem
  simp [hasKey, hid, hk]

/-- The nodes of a graph, under ids that are distinct texts. -/
structure Listed (g : Json) (t : Table Key Json) : Prop where
  nodes : Diff.requiredNodes g = .ok t.values
  distinct : t.keys.Nodup
  labelled : Labelled t

lemma nodesById_values (hdistinct : t.keys.Nodup)
    (hidentified : Identified t) : Diff.nodesById t.values = .ok t := by
  -- The induction is on the nodes still to come, with those before them in the table already.
  have hgeneral : ∀ rest met : Table Key Json, (met ++ rest).keys.Nodup → Identified rest →
      rest.values.foldlM (fun t n ↦ do return t.put (← (← n.need "id").key) n) met =
        (.ok (met ++ rest) : Except Fault (Table Key Json)) := by
    intro rest
    induction rest with
    | nil =>
      intro met _ _
      rw [append_nil]
      rfl
    | cons e rest ih =>
      intro met hdistinct hidentified
      obtain ⟨k, n⟩ := e
      obtain ⟨id, hid, hkey⟩ := hidentified k n mem_cons_self
      have hnew : k ∉ met.keys := by
        intro hmem
        rw [Table.keys_append, nodup_append] at hdistinct
        exact hdistinct.2.2 _ hmem _ mem_cons_self rfl
      rw [values, map_cons, foldlM_cons, need_eq_ok.2 hid]
      show ((id.key >>= fun key ↦ pure (met.put key n)) >>= fun t ↦ (values rest).foldlM _ t) = _
      rw [key_eq_ok.2 hkey]
      show (values rest).foldlM _ (met.put k n) = _
      rw [put_of_notMem hnew, append_cons met _ rest]
      refine ih _ ?_ fun k n h ↦ hidentified k n (mem_cons_of_mem _ h)
      rw [← append_cons]
      exact hdistinct
  exact hgeneral t [] hdistinct hidentified

lemma identified_nodesById {ns : List Json} (h : Diff.nodesById ns = .ok t) : Identified t := by
  refine foldlM_invariant (fun _ t ↦ Identified t) ?_ (by simp [Identified]) h
  intro met t n t' ht hn k m hm
  simp only [bind_eq_ok, pure_eq_ok, need_eq_ok, key_eq_ok] at hn
  obtain ⟨id, hid, key, hkey, rfl⟩ := hn
  rcases mem_put hm with heq | hm
  · cases heq
    exact ⟨id, hid, hkey⟩
  · exact ht k m hm

lemma Tabled.nodesById (h : Tabled g t) : (Diff.requiredNodes g >>= Diff.nodesById) = .ok t := by
  rw [h.nodes]
  exact nodesById_values h.distinct h.identified

lemma Tabled.listed (h : Tabled g t) (htexts : ∀ k ∈ t.keys, ∃ id, k = .str id) : Listed g t :=
  ⟨h.nodes, h.distinct, h.identified.labelled htexts⟩

namespace Listed

variable {t : Table Key Json}

lemma tabled (h : Listed g t) : Tabled g t := ⟨h.nodes, h.distinct, h.labelled.identified⟩

lemma nodesById (h : Listed g t) : (Diff.requiredNodes g >>= Diff.nodesById) = .ok t :=
  h.tabled.nodesById

lemma text_of_mem_keys (h : Listed g t) (hk : k ∈ t.keys) : ∃ id, k = .str id := by
  obtain ⟨n, hn⟩ := exists_of_mem_keys hk
  obtain ⟨id, hid, -⟩ := h.labelled k n (mem_of_get? hn)
  exact ⟨id, hid⟩

lemma truthy (h : Listed g t) : g.truthy = true := by
  obtain ⟨nodes, hnodes, -⟩ := bind_eq_ok.1 h.nodes
  exact truthy_of_member? (need_eq_ok.1 hnodes)

end Listed

/-- Two tables have the same keys, and a relation holds between the nodes under each of them. -/
structure Aligned (R : Key → Json → Json → Prop) (nodes done : Table Key Json) : Prop where
  absent : ∀ k, nodes.get? k = none → done.get? k = none
  present : ∀ k n, nodes.get? k = some n → ∃ m, done.get? k = some m ∧ R k n m

namespace Aligned

variable {R S : Key → Json → Json → Prop} {nodes done : Table Key Json}

lemma imp (h : Aligned R nodes done) (himp : ∀ k n m, R k n m → S k n m) :
    Aligned S nodes done := by
  refine ⟨h.absent, fun k n hn ↦ ?_⟩
  obtain ⟨m, hm, hR⟩ := h.present k n hn
  exact ⟨m, hm, himp k n m hR⟩

lemma mem_keys_iff (h : Aligned R nodes done) (k : Key) : k ∈ done.keys ↔ k ∈ nodes.keys := by
  rw [Table.mem_keys_iff, Table.mem_keys_iff]
  cases hn : nodes.get? k with
  | none => rw [h.absent k hn]
  | some n =>
    obtain ⟨m, hm, -⟩ := h.present k n hn
    rw [hm]
    simp

end Aligned

lemma Listed.of_aligned {R : Key → Json → Json → Prop} {g' : Json} {t' : Table Key Json}
    (h : Listed g t) (h' : Tabled g' t') (haligned : Aligned R t t') : Listed g' t' :=
  h'.listed fun k hk ↦ h.text_of_mem_keys ((haligned.mem_keys_iff k).1 hk)

/-- A node without its roles. -/
def structureOf : Json → Json
  | .obj m => .obj (erase m "semantic_roles")
  | v => v

/-- The roles of a node; there are none if nothing is said about them. -/
def rolesOf (n : Json) : Json := (n.member? "semantic_roles").getD (.arr [])

lemma structureOf_setMember (n v : Json) :
    structureOf (n.setMember "semantic_roles" v) = structureOf n := by
  cases n with
  | obj m => rw [setMember, structureOf, structureOf, erase_put]
  | _ => rfl

lemma member?_of_structureOf_eq {m : Json} (h : structureOf n = structureOf m)
    (hname : name ≠ "semantic_roles") : n.member? name = m.member? name := by
  have hkept (v : Json) : (structureOf v).member? name = v.member? name := by
    cases v with
    | obj members => exact get?_erase_of_ne hname
    | _ => rfl
  rw [← hkept n, ← hkept m, h]

/-- What is told by the structure of a node is the same for nodes of the same structure. -/
lemma map_congr_of_structureOf {γ : Type} {o o' : Option Json} (f : Json → γ)
    (h : o.map structureOf = o'.map structureOf)
    (hf : ∀ n n', structureOf n = structureOf n' → f n = f n') : o.map f = o'.map f := by
  cases o with
  | none =>
    rw [Option.map_none, eq_comm, Option.map_eq_none_iff] at h
    rw [h]
  | some n =>
    rw [Option.map_some, eq_comm, Option.map_eq_some_iff] at h
    obtain ⟨n', rfl, hstructure⟩ := h
    rw [Option.map_some, Option.map_some, hf n n' hstructure.symm]

end CodeAtlas.Graph
