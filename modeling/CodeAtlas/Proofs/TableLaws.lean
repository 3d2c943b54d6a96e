import CodeAtlas.Table
import Mathlib

/-!
# Laws of tables

Looking up after writing, the keys of a table and the order in which they stand, and the tables
whose keys are distinct. For these, looking up a key and finding an entry are the same.
-/

namespace CodeAtlas.Table

open List Table

variable {κ β γ : Type} [DecidableEq κ]
variable {t u : Table κ β} {key other : κ} {value : β} {e : κ × β}

@[simp]
lemma get?_nil (key : κ) : get? ([] : Table κ β) key = none := rfl

lemma get?_cons (e : κ × β) (t : Table κ β) (key : κ) :
    get? (e :: t) key = if e.1 = key then some e.2 else t.get? key := rfl

lemma get?_put (t : Table κ β) (key other : κ) (value : β) :
    (t.put key value).get? other = if other = key then some value else t.get? other := by
  by_cases h : other = key
  · subst h
    simp
  · rw [if_neg h, get?_put_of_ne h]

lemma get?_append (t u : Table κ β) (key : κ) :
    get? (t ++ u) key = (t.get? key).or (u.get? key) := by
  induction t with
  | nil => simp
  | cons e rest ih =>
    rw [cons_append, get?_cons, get?_cons, ih]
    split <;> simp

omit [DecidableEq κ] in
lemma keys_append (t u : Table κ β) : keys (t ++ u) = t.keys ++ u.keys := map_append

omit [DecidableEq κ] in
lemma values_append (t u : Table κ β) : values (t ++ u) = t.values ++ u.values :=
  map_append

lemma mem_of_get? (h : t.get? key = some value) : (key, value) ∈ t := by
  induction t with
  | nil => simp at h
  | cons e rest ih =>
    rw [get?_cons] at h
    split at h
    next hk =>
      cases h
      subst hk
      simp
    next => exact mem_cons_of_mem _ (ih h)

lemma mem_keys_iff : key ∈ t.keys ↔ (t.get? key).isSome := by
  induction t with
  | nil => simp [keys]
  | cons e rest ih =>
    rw [get?_cons]
    by_cases h : e.1 = key
    · simp [keys, h]
    · have hne : key ≠ e.1 := fun heq ↦ h heq.symm
      simpa [keys, h, hne] using ih

lemma mem_keys_of_get? (h : t.get? key = some value) : key ∈ t.keys := by
  rw [mem_keys_iff, h]
  rfl

lemma exists_of_mem_keys (h : key ∈ t.keys) : ∃ value, t.get? key = some value := by
  rw [mem_keys_iff] at h
  exact Option.isSome_iff_exists.1 h

lemma get?_eq_none_iff : t.get? key = none ↔ key ∉ t.keys := by
  rw [mem_keys_iff, Option.not_isSome_iff_eq_none]

omit [DecidableEq κ] in
lemma mem_keys_of_mem (h : (key, value) ∈ t) : key ∈ t.keys :=
  mem_map_of_mem (f := Prod.fst) h

lemma contains_iff : t.contains key = true ↔ key ∈ t.keys :=
  mem_keys_iff.symm

lemma get?_eq_some_iff_mem (hagree : ∀ v v', (key, v) ∈ t → (key, v') ∈ t → v = v') :
    t.get? key = some value ↔ (key, value) ∈ t := by
  refine ⟨mem_of_get?, fun hmem ↦ ?_⟩
  obtain ⟨other, hother⟩ := exists_of_mem_keys (mem_keys_of_mem hmem)
  rw [hother, hagree other value (mem_of_get? hother) hmem]

lemma get?_of_mem (hnodup : t.keys.Nodup) (h : (key, value) ∈ t) : t.get? key = some value := by
  induction t with
  | nil => simp at h
  | cons e rest ih =>
    rw [keys, map_cons, nodup_cons] at hnodup
    rw [get?_cons]
    rcases mem_cons.1 h with rfl | h
    · simp
    · have hne : e.1 ≠ key := by
        rintro rfl
        exact hnodup.1 (mem_keys_of_mem h)
      rw [if_neg hne]
      exact ih hnodup.2 h

lemma get?_of_perm (h : t.Perm u) (hnodup : t.keys.Nodup) (key : κ) : t.get? key = u.get? key :=
  Option.ext fun _ ↦
    ⟨fun ht ↦ get?_of_mem ((h.map Prod.fst).nodup_iff.1 hnodup) (h.mem_iff.1 (mem_of_get? ht)),
      fun hu ↦ get?_of_mem hnodup (h.mem_iff.2 (mem_of_get? hu))⟩

lemma keys_put_of_mem (h : key ∈ t.keys) (value : β) : (t.put key value).keys = t.keys := by
  induction t with
  | nil => simp [keys] at h
  | cons e rest ih =>
    obtain ⟨k, v⟩ := e
    by_cases hk : k = key
    · simp [put, keys, hk]
    · have hrest : key ∈ keys rest := by simpa [keys, Ne.symm hk] using h
      simpa [put, keys, hk] using ih hrest

lemma put_append (h : key ∉ t.keys) (value : β) :
    put (t ++ u) key value = t ++ u.put key value := by
  induction t with
  | nil => rfl
  | cons e rest ih =>
    rw [keys, map_cons, mem_cons, not_or] at h
    rw [cons_append, put, if_neg (Ne.symm h.1), ih h.2, cons_append]

lemma put_of_notMem (h : key ∉ t.keys) (value : β) : t.put key value = t ++ [(key, value)] := by
  simpa [put] using put_append (u := []) h value

lemma mem_keys_put : other ∈ (t.put key value).keys ↔ other = key ∨ other ∈ t.keys := by
  rw [mem_keys_iff, mem_keys_iff, get?_put]
  by_cases h : other = key <;> simp [h]

lemma nodup_keys_put (h : t.keys.Nodup) (key : κ) (value : β) : (t.put key value).keys.Nodup := by
  by_cases hkey : key ∈ t.keys
  · rw [keys_put_of_mem hkey]
    exact h
  · rw [put_of_notMem hkey, keys_append]
    exact concat_eq_append ▸ h.concat hkey

lemma mem_put (h : e ∈ t.put key value) : e = (key, value) ∨ e ∈ t := by
  induction t with
  | nil => exact .inl (mem_singleton.1 h)
  | cons e' rest ih =>
    rw [put] at h
    split at h
    next hk =>
      rcases mem_cons.1 h with rfl | h
      · exact .inl (by rw [hk])
      · exact .inr (mem_cons_of_mem _ h)
    next hk =>
      rcases mem_cons.1 h with rfl | h
      · exact .inr mem_cons_self
      · exact (ih h).imp_right (mem_cons_of_mem _)

lemma get?_merge_of_none (h : u.get? key = none) : (t.merge u).get? key = t.get? key := by
  rw [merge]
  induction u generalizing t with
  | nil => rfl
  | cons e rest ih =>
    rw [get?_cons] at h
    split at h
    · cases h
    next hne => rw [foldl_cons, ih h, get?_put, if_neg (Ne.symm hne)]

lemma get?_merge (h : u.keys.Nodup) (key : κ) :
    (t.merge u).get? key = (u.get? key).or (t.get? key) := by
  rw [merge]
  induction u generalizing t with
  | nil => rfl
  | cons e rest ih =>
    rw [keys, map_cons, nodup_cons] at h
    rw [foldl_cons, ih h.2, get?_put, get?_cons]
    by_cases hk : e.1 = key
    · rw [if_pos hk, if_pos hk.symm, get?_eq_none_iff.2 (hk ▸ h.1)]
      rfl
    · rw [if_neg hk, if_neg (Ne.symm hk)]

lemma mem_merge (h : e ∈ t.merge u) : e ∈ t ∨ e ∈ u := by
  rw [merge] at h
  induction u generalizing t with
  | nil => exact .inl h
  | cons e' rest ih =>
    rcases ih h with h | h
    · rcases mem_put h with rfl | h
      · exact .inr mem_cons_self
      · exact .inl h
    · exact .inr (mem_cons_of_mem _ h)

lemma mem_keys_merge : key ∈ (t.merge u).keys ↔ key ∈ t.keys ∨ key ∈ u.keys := by
  rw [merge]
  induction u generalizing t with
  | nil => simp [keys]
  | cons e rest ih =>
    rw [foldl_cons, ih, mem_keys_put, keys, keys, keys, map_cons, mem_cons]
    tauto

lemma nodup_keys_merge (h : t.keys.Nodup) (u : Table κ β) : (t.merge u).keys.Nodup := by
  induction u generalizing t with
  | nil => exact h
  | cons e rest ih => exact ih (nodup_keys_put h e.1 e.2)

lemma get?_map (f : β → γ) (t : Table κ β) (key : κ) :
    get? (t.map (Prod.map id f)) key = (t.get? key).map f := by
  induction t with
  | nil => rfl
  | cons e rest ih =>
    by_cases hk : e.1 = key
    · simp [get?_cons, hk]
    · simp [get?_cons, hk, ih]

lemma erase_put (t : Table κ β) (key : κ) (value : β) :
    (t.put key value).erase key = t.erase key := by
  induction t with
  | nil => simp [put, erase]
  | cons e rest ih =>
    obtain ⟨k, v⟩ := e
    by_cases h : k = key
    · simp [put, erase, h]
    · simp [put, erase, h, ih]

lemma get?_erase_of_ne (h : other ≠ key) : (t.erase key).get? other = t.get? other := by
  induction t with
  | nil => rfl
  | cons e rest ih =>
    obtain ⟨k, v⟩ := e
    by_cases hk : k = key
    · simp [erase, get?_cons, hk, ih, Ne.symm h]
    · simp [erase, get?_cons, hk, ih]

lemma get?_push (t : Table κ (List β)) (key other : κ) (item : β) : (t.push key item).get? other =
      if other = key then some ((t.get? key).getD [] ++ [item]) else t.get? other := by
  rw [push, get?_put]

lemma get?_filter (p : κ → Bool) (t : Table κ β) (key : κ) :
    get? (t.filter fun e ↦ p e.1) key = if p key = true then t.get? key else none := by
  induction t with
  | nil => simp
  | cons e rest ih =>
    rw [filter_cons, get?_cons]
    by_cases hkey : e.1 = key
    · subst hkey
      by_cases hp : p e.1 = true
      · simp [hp, get?_cons]
      · simp [hp, ih]
    · by_cases hp : p e.1 = true
      · simp [hp, get?_cons, hkey, ih]
      · simp [hp, hkey, ih]

lemma get?_filterMap (f : κ → Option γ) (t : Table κ β) (key : κ) :
    get? (t.filterMap fun e ↦ (f e.1).map fun v ↦ (e.1, v)) key =
    (t.get? key).bind fun _ ↦ f key := by
  induction t with
  | nil => simp
  | cons e rest ih =>
    rw [filterMap_cons, get?_cons]
    by_cases hkey : e.1 = key
    · subst hkey
      cases hf : f e.1 with
      | none => simp [ih, hf]
      | some v => simp [get?_cons]
    · cases hf : f e.1 with
      | none => simp [ih, hkey]
      | some v => simp [get?_cons, hkey, ih]

omit [DecidableEq κ] in
lemma keys_filterMap (f : κ → Option γ) (t : Table κ β) :
    keys (t.filterMap fun e ↦ (f e.1).map fun v ↦ (e.1, v)) = t.keys.filter fun k ↦
    (f k).isSome := by
  induction t with
  | nil => rfl
  | cons e rest ih =>
    rw [keys, keys, map_cons, filter_cons, filterMap_cons]
    rw [keys, keys] at ih
    cases f e.1 <;> simpa using ih

lemma ofList_concat (entries : Table κ β) (e : κ × β) :
    ofList (entries ++ [e]) = (ofList entries).put e.1 e.2 := foldl_append

end CodeAtlas.Table
