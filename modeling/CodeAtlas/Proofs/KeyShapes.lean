import CodeAtlas.Adapter.Governance
import CodeAtlas.Proofs.SameDocuments

/-!
# Documents of one shape

The rules of an adapter are compared with the core rules key by key. They do not depart from them
exactly if both documents have one shape: the same keys, commentary apart, and under each key two
objects of one shape or two values of one kind, where numbers and truth values are of one kind. To
have one shape is an equivalence, and a comparison the other way round finds the same departures,
turned about. So the check keeps the kinds of values but for one case: it lets a number pass for a
truth value.
-/

namespace CodeAtlas.Adapter

open List Table Json

variable {c a b : Table String Json} {u v w : Json} {k start : String}

/-! ## Shapes -/

/-- The kind of a value, with one kind for numbers and truth values. -/
def looseKind : Kind → Kind
  | .bool => .int
  | .float => .int
  | k => k

lemma isCompatible_iff {k l : Kind} : isCompatible k l = true ↔ looseKind k = looseKind l := by
  cases k <;> cases l <;> decide

lemma isObject_iff_kind : v.IsObject ↔ looseKind v.kind = .dict := by
  cases v <;> simp [Json.IsObject, kind, looseKind]

inductive SameShape : Json → Json → Prop
  | plain {v w : Json} (hplain : ¬(v.IsObject ∧ w.IsObject))
      (hkind : looseKind v.kind = looseKind w.kind) : SameShape v w
  | obj {c a : Table String Json} (hkeys : ∀ k ≠ commentary, k ∈ c.keys ↔ k ∈ a.keys)
      (hvalues : ∀ k ≠ commentary, ∀ v w, c.get? k = some v → a.get? k = some w → SameShape v w) :
      SameShape (.obj c) (.obj a)

namespace SameShape

lemma kind_eq (h : SameShape v w) : looseKind v.kind = looseKind w.kind := by
  cases h with
  | plain _ hkind => exact hkind
  | obj => rfl

lemma refl (v : Json) : SameShape v v := by
  induction v using induction with
  | h v _ hmembers =>
    by_cases hobject : v.IsObject
    · obtain ⟨c, rfl⟩ := hobject
      refine .obj (fun _ _ ↦ Iff.rfl) fun k _ v w hv hw ↦ ?_
      cases hv.symm.trans hw
      exact hmembers _ (mem_of_get? hv)
    · exact .plain (fun h ↦ hobject h.1) rfl

lemma symm (h : SameShape v w) : SameShape w v := by
  induction h with
  | plain hplain hkind => exact .plain (fun h ↦ hplain h.symm) hkind.symm
  | obj hkeys _ ih =>
    exact .obj (fun k hk ↦ (hkeys k hk).symm) fun k hk w v hw hv ↦ ih k hk v w hv hw

lemma trans (h : SameShape u v) (h' : SameShape v w) : SameShape u w := by
  induction h generalizing w with
  | plain hplain hkind =>
    refine .plain (fun hobjects ↦ hplain ⟨hobjects.1, ?_⟩) (hkind.trans h'.kind_eq)
    rw [isObject_iff_kind, ← hkind, ← isObject_iff_kind]
    exact hobjects.1
  | obj hkeys hvalues ih =>
    cases h' with
    | plain hplain hkind =>
      exact absurd ⟨⟨_, rfl⟩, isObject_iff_kind.2 hkind.symm⟩ hplain
    | obj hkeys' hvalues' =>
      refine .obj (fun k hk ↦ (hkeys k hk).trans (hkeys' k hk)) fun k hk u w hu hw ↦ ?_
      obtain ⟨v, hv⟩ := exists_of_mem_keys ((hkeys k hk).1 (mem_keys_of_get? hu))
      exact ih k hk u v hu hv (hvalues' k hk v w hv hw)

end SameShape

/-! ## Keys that two documents share -/

/-- The shared keys but for commentary, each with the values under it. -/
def shared (c a : Table String Json) : List (String × Json × Json) :=
  c.filterMap fun e ↦ if e.1 = commentary then none else (a.get? e.1).map (e.1, e.2, ·)

def exchanged (e : String × Json × Json) : String × Json × Json := (e.1, e.2.2, e.2.1)

lemma compareShared_eq (start : String) (c a : Table String Json) :
    compareShared start c a = (shared c a).flatMap fun e ↦ compareValues (start ++ e.1)
    e.2.1 e.2.2 := by
  induction c with
  | nil => simp [compareShared, shared]
  | cons e rest ih =>
    rw [compareShared, ih, shared, shared, filterMap_cons]
    by_cases hmeta : e.1 = commentary <;> cases get? a e.1 <;> simp [hmeta]

lemma mem_shared (hc : c.keys.Nodup) :
    (k, v, w) ∈ shared c a ↔ k ≠ commentary ∧ c.get? k = some v ∧ a.get? k = some w := by
  simp only [shared, mem_filterMap, Option.ite_none_left_eq_some, Option.map_eq_some_iff,
    Prod.mk.injEq]
  constructor
  · rintro ⟨e, he, hk, w, hw, rfl, rfl, rfl⟩
    exact ⟨hk, get?_of_mem hc he, hw⟩
  · rintro ⟨hk, hv, hw⟩
    exact ⟨_, mem_of_get? hv, hk, w, hw, rfl, rfl, rfl⟩

lemma nodup_shared (hc : c.keys.Nodup) (a : Table String Json) : (shared c a).Nodup := by
  refine Nodup.filterMap (fun e e' found h h' ↦ ?_) (Nodup.of_map _ hc)
  simp only [Option.mem_def, Option.ite_none_left_eq_some, Option.map_eq_some_iff] at h h'
  obtain ⟨-, _, -, rfl⟩ := h
  obtain ⟨-, _, -, heq⟩ := h'
  simp only [Prod.mk.injEq] at heq
  exact Prod.ext heq.1.symm heq.2.1.symm

lemma perm_shared (hc : c.keys.Nodup) (ha : a.keys.Nodup) :
    (shared a c).Perm ((shared c a).map exchanged) := by
  have hinvolutive : Function.Involutive exchanged := fun _ ↦ rfl
  refine (perm_ext_iff_of_nodup (nodup_shared ha c)
    ((nodup_shared hc a).map hinvolutive.injective)).2 ?_
  rintro ⟨k, w, v⟩
  rw [← hinvolutive (k, w, v), mem_map_of_injective hinvolutive.injective, hinvolutive, exchanged,
    mem_shared ha, mem_shared hc]
  tauto

/-! ## Departures -/

/-- A departure as it is from the other side. -/
def Departure.mirrored : Departure → Departure
  | .unknownKey => .missingKey
  | .missingKey => .unknownKey
  | .typeMismatch expected found => .typeMismatch found expected

def Finding.mirrored (f : Finding) : Finding := { f with departure := f.departure.mirrored }

/-- All departures of one object from another. -/
def departures (start : String) (c a : Table String Json) : List Finding :=
  keyFindings start c a ++ compareShared start c a

lemma compareValues_plain (path : String) (h : ¬(v.IsObject ∧ w.IsObject)) :
    compareValues path v w =
    if isCompatible v.kind w.kind then [] else [⟨path, .typeMismatch v.kind w.kind⟩] := by
  cases v with
  | obj c =>
    cases w with
    | obj a => exact absurd ⟨⟨c, rfl⟩, ⟨a, rfl⟩⟩ h
    | _ => simp [compareValues]
  | _ => simp [compareValues]

lemma keyFindings_eq_nil_iff : keyFindings start c a = [] ↔ ∀ k ≠ commentary, k ∈ c.keys ↔
    k ∈ a.keys := by
  have houtside (c a : Table String Json) :
      keysOutside c a = [] ↔ ∀ k ≠ commentary, k ∈ c.keys → k ∈ a.keys := by
    simp only [keysOutside, filter_eq_nil_iff, Bool.and_eq_true, bne_iff_ne, Bool.not_eq_true',
      ← Bool.not_eq_true, Table.contains_iff, not_and, not_not]
    exact ⟨fun h k hk hmem ↦ h k hmem hk, fun h k hmem hk ↦ h k hk hmem⟩
  rw [keyFindings, append_eq_nil_iff, map_eq_nil_iff, map_eq_nil_iff, houtside, houtside]
  exact ⟨fun h k hk ↦ ⟨h.2 k hk, h.1 k hk⟩, fun h ↦ ⟨fun k hk ↦ (h k hk).2, fun k hk ↦ (h k hk).1⟩⟩

lemma departures_eq_nil_iff (hc : c.keys.Nodup)
    (h : ∀ e ∈ c, ∀ path w, compareValues path e.2 w = [] ↔ SameShape e.2 w) :
    departures start c a = [] ↔ SameShape (.obj c) (.obj a) := by
  rw [departures, append_eq_nil_iff, keyFindings_eq_nil_iff, compareShared_eq, flatMap_eq_nil_iff]
  constructor
  · rintro ⟨hkeys, hvalues⟩
    refine .obj hkeys fun k hk v w hv hw ↦ ?_
    exact (h _ (mem_of_get? hv) _ w).1 (hvalues _ ((mem_shared hc).2 ⟨hk, hv, hw⟩))
  · intro hshape
    cases hshape with
    | plain hplain => exact absurd ⟨⟨c, rfl⟩, ⟨a, rfl⟩⟩ hplain
    | obj hkeys hvalues =>
      refine ⟨hkeys, fun e he ↦ ?_⟩
      obtain ⟨hk, hv, hw⟩ := (mem_shared hc).1 he
      exact (h _ (mem_of_get? hv) _ _).2 (hvalues _ hk _ _ hv hw)

lemma compareValues_eq_nil_iff (hv : v.Distinct) (path : String) (w : Json) :
    compareValues path v w = [] ↔ SameShape v w := by
  induction v using induction generalizing path w with
  | h v _ ih =>
    obtain ⟨-, hmembers, hnames⟩ := hv
    by_cases hobjects : v.IsObject ∧ w.IsObject
    · obtain ⟨⟨c, rfl⟩, ⟨a, rfl⟩⟩ := hobjects
      exact departures_eq_nil_iff hnames fun e he ↦ ih e he (hmembers e he)
    · have hshape : SameShape v w ↔ looseKind v.kind = looseKind w.kind :=
        ⟨SameShape.kind_eq, .plain hobjects⟩
      rw [compareValues_plain path hobjects, hshape, ← isCompatible_iff]
      split <;> simp_all

lemma perm_departures (hc : c.keys.Nodup) (ha : a.keys.Nodup) (h : ∀ e ∈ c, ∀ path w, (e.1, w) ∈ a →
      (compareValues path w e.2).Perm ((compareValues path e.2 w).map Finding.mirrored)) :
    (departures start a c).Perm ((departures start c a).map Finding.mirrored) := by
  have hkeys : (keyFindings start a c).Perm ((keyFindings start c a).map Finding.mirrored) := by
    rw [keyFindings, keyFindings, map_append, map_map, map_map]
    exact perm_append_comm
  have hvalues :
      (compareShared start a c).Perm ((compareShared start c a).map Finding.mirrored) := by
    rw [compareShared_eq, compareShared_eq, map_flatMap]
    refine ((perm_shared hc ha).flatMap_right _).trans ?_
    rw [flatMap_map]
    refine Perm.flatMap_left _ fun e he ↦ ?_
    obtain ⟨-, hv, hw⟩ := (mem_shared hc).1 he
    exact h _ (mem_of_get? hv) _ _ (mem_of_get? hw)
  rw [departures, departures, map_append]
  exact hkeys.append hvalues

lemma perm_compareValues (hv : v.Distinct) (hw : w.Distinct) (path : String) :
    (compareValues path w v).Perm ((compareValues path v w).map Finding.mirrored) := by
  induction v using induction generalizing path w with
  | h v _ ih =>
    obtain ⟨-, hmembers, hnames⟩ := hv
    by_cases hobjects : v.IsObject ∧ w.IsObject
    · obtain ⟨⟨c, rfl⟩, ⟨a, rfl⟩⟩ := hobjects
      obtain ⟨-, hmembers', hnames'⟩ := hw
      exact perm_departures hnames hnames' fun e he path w hw ↦ ih e he (hmembers e he)
        (hmembers' _ hw) path
    · have hcompatible : isCompatible w.kind v.kind = isCompatible v.kind w.kind := by
        rw [Bool.eq_iff_iff, isCompatible_iff, isCompatible_iff, eq_comm]
      rw [compareValues_plain path hobjects, compareValues_plain path fun h ↦ hobjects h.symm,
        hcompatible]
      split <;> exact .refl _

/-! ## Documents of rules -/

/-- An object in which no object names a member twice. -/
structure RuleDocument where
  members : Table String Json
  distinct : (obj members).Distinct

def RuleDocument.value (d : RuleDocument) : Json := .obj d.members

lemma findings_eq (start : String) (c a : RuleDocument) :
    findings start c.value a.value = .ok (departures start c.members a.members) := rfl

lemma RuleDocument.departures_eq_nil_iff (c a : RuleDocument) :
    departures start c.members a.members = [] ↔ SameShape c.value a.value := by
  obtain ⟨-, hmembers, hnames⟩ := c.distinct
  exact Adapter.departures_eq_nil_iff hnames fun e he ↦ compareValues_eq_nil_iff (hmembers e he)

/-- The check of keys is an equivalence of documents: it finds nothing exactly where both have one
shape. Whatever it finds, it finds turned about when core and adapter change places: at the same
key, a key too much for one that is missing, and the kind that is found for the one that is
expected. -/
theorem key_check_decides_shape (start : String) :
    (∀ core adapter : RuleDocument, ∃ found back,
      findings start core.value adapter.value = .ok found ∧
      findings start adapter.value core.value = .ok back ∧
      (found = [] ↔ SameShape core.value adapter.value) ∧ back.Perm (found.map Finding.mirrored)) ∧
    Equivalence fun core adapter : RuleDocument ↦ findings start core.value adapter.value =
    .ok [] := by
  have hnone (c a : RuleDocument) : findings start c.value a.value = .ok [] ↔
      SameShape c.value a.value := by
    rw [findings_eq, Except.ok.injEq, c.departures_eq_nil_iff]
  refine ⟨fun c a ↦ ⟨_, _, findings_eq start c a, findings_eq start a c,
    c.departures_eq_nil_iff a, ?_⟩, ?_⟩
  · obtain ⟨-, hmembers, hnames⟩ := c.distinct
    obtain ⟨-, hmembers', hnames'⟩ := a.distinct
    exact perm_departures hnames hnames' fun e he path w hw ↦
      perm_compareValues (hmembers e he) (hmembers' _ hw) path
  · refine ⟨fun c ↦ (hnone c c).2 (.refl _), fun {c a} h ↦ ?_, fun {c a b} h h' ↦ ?_⟩
    · exact (hnone a c).2 ((hnone c a).1 h).symm
    · exact (hnone c b).2 (((hnone c a).1 h).trans ((hnone a b).1 h'))

/-! ## Kinds of values that meet -/

/-- The value under a path of keys. -/
def valueAt : List String → Json → Option Json
  | [], v => some v
  | k :: path, v => (v.member? k).bind (valueAt path)

/-- The values that two documents have under a path that leads through both. -/
def Meet (v w : Json) (path : List String) (x y : Json) : Prop :=
  valueAt path v = some x ∧ valueAt path w = some y

/-- The kind of a value, with one kind for whole numbers and others. -/
def numberKind : Kind → Kind
  | .float => .int
  | k => k

/-- Two values are of one kind, where a truth value is no number, unless one of them is an object.
-/
def KindKept (v w : Json) :
    Prop := ¬v.IsObject → ¬w.IsObject → numberKind v.kind = numberKind w.kind

def KindsKept (v w : Json) : Prop := ∀ path x y, Meet v w path x y → KindKept x y

lemma meet_cons {path : List String} {x y : Json} : Meet v w (k :: path) x y ↔
    ∃ v' w', v.member? k = some v' ∧ w.member? k = some w' ∧ Meet v' w' path x y := by
  simp only [Meet, valueAt, Option.bind_eq_some_iff]
  constructor
  · rintro ⟨⟨v', hv, hx⟩, w', hw, hy⟩
    exact ⟨v', w', hv, hw, hx, hy⟩
  · rintro ⟨v', w', hv, hw, hx, hy⟩
    exact ⟨⟨v', hv, hx⟩, w', hw, hy⟩

namespace SameShape

lemma isObject_iff (h : SameShape v w) : v.IsObject ↔ w.IsObject := by
  rw [isObject_iff_kind, isObject_iff_kind, h.kind_eq]

lemma of_meet {path : List String} {x y : Json} (h : SameShape v w) (hmeet : Meet v w path x y)
    (hpath : commentary ∉ path) : SameShape x y := by
  induction path generalizing v w with
  | nil =>
    obtain ⟨hx, hy⟩ := hmeet
    cases hx
    cases hy
    exact h
  | cons k path ih =>
    obtain ⟨v', w', hv, hw, hrest⟩ := meet_cons.1 hmeet
    rw [mem_cons, not_or] at hpath
    cases h with
    | plain hplain => exact absurd ⟨isObject_of_member? hv, isObject_of_member? hw⟩ hplain
    | obj _ hvalues => exact ih (hvalues k (Ne.symm hpath.1) v' w' hv hw) hrest hpath.2

lemma mem_keys_iff (h : SameShape v w) (hk : k ≠ commentary) :
    k ∈ keys v.members ↔ k ∈ keys w.members := by
  have hobjects := h.isObject_iff
  cases h with
  | obj hkeys => exact hkeys k hk
  | plain hplain =>
    have hnone (x : Json) (hx : ¬x.IsObject) : x.members = [] := by
      cases x with
      | obj m => exact absurd ⟨m, rfl⟩ hx
      | _ => rfl
    rw [hnone v fun hv ↦ hplain ⟨hv, hobjects.1 hv⟩, hnone w fun hw ↦ hplain ⟨hobjects.2 hw, hw⟩]

lemma of_forall_meet (h : ∀ path x y, Meet v w path x y → commentary ∉ path →
    looseKind x.kind = looseKind y.kind ∧
      ∀ k ≠ commentary, k ∈ keys x.members ↔ k ∈ keys y.members) : SameShape v w := by
  induction v using induction generalizing w with
  | h v _ ih =>
    obtain ⟨hkind, hkeys⟩ := h [] v w ⟨rfl, rfl⟩ not_mem_nil
    by_cases hobjects : v.IsObject ∧ w.IsObject
    · obtain ⟨⟨c, rfl⟩, ⟨a, rfl⟩⟩ := hobjects
      refine .obj hkeys fun k hk x y hx hy ↦ ih _ (mem_of_get? hx) fun path x' y' hmeet hpath ↦ ?_
      refine h (k :: path) x' y' (meet_cons.2 ⟨x, y, hx, hy, hmeet⟩) ?_
      rw [mem_cons, not_or]
      exact ⟨hk.symm, hpath⟩
    · exact .plain hobjects hkind

end SameShape

lemma numberKind_eq_iff {k l : Kind} :
    numberKind k = numberKind l ↔ looseKind k = looseKind l ∧ (k = .bool ↔ l = .bool) := by
  cases k <;> cases l <;> decide

lemma SameShape.kindKept_iff (h : SameShape v w) :
    KindKept v w ↔ (v.kind = .bool ↔ w.kind = .bool) := by
  by_cases hv : v.IsObject
  · obtain ⟨⟨c, rfl⟩, ⟨a, rfl⟩⟩ := And.intro hv (h.isObject_iff.1 hv)
    exact iff_of_true (fun hc ↦ absurd hv hc) Iff.rfl
  · have hw : ¬w.IsObject := fun hw ↦ hv (h.isObject_iff.2 hw)
    rw [KindKept, imp_iff_right hv, imp_iff_right hw, numberKind_eq_iff, and_iff_right h.kind_eq]

/-- The check of keys passes just if under every path that core and adapter share, commentary apart,
they have the same keys and values of one kind, where it takes truth values for numbers. So an
adapter that passes keeps the kinds of the core values exactly if no number stands where the other
has a truth value; in commentary it may have any. -/
theorem kinds_kept_iff (start : String) (core adapter : RuleDocument) :
    (findings start core.value adapter.value = .ok [] ↔
      ∀ path v w, Meet core.value adapter.value path v w → commentary ∉ path →
        looseKind v.kind = looseKind w.kind ∧
          ∀ k ≠ commentary, k ∈ Table.keys v.members ↔ k ∈ Table.keys w.members) ∧
    (findings start core.value adapter.value = .ok [] → (KindsKept core.value adapter.value ↔
      ∀ path v w, Meet core.value adapter.value path v w →
        (commentary ∉ path → (v.kind = .bool ↔ w.kind = .bool)) ∧
        (commentary ∈ path → KindKept v w))) := by
  have hpasses : findings start core.value adapter.value = .ok [] ↔
      SameShape core.value adapter.value := by
    rw [findings_eq, Except.ok.injEq, core.departures_eq_nil_iff]
  rw [hpasses]
  refine ⟨⟨fun h path v w hmeet hpath ↦ ?_, .of_forall_meet⟩, fun h ↦ ?_⟩
  · have hshape := h.of_meet hmeet hpath
    exact ⟨hshape.kind_eq, fun k ↦ hshape.mem_keys_iff⟩
  · refine forall_congr' fun path ↦ forall_congr' fun v ↦ forall_congr' fun w ↦
      imp_congr_right fun hmeet ↦ ?_
    by_cases hpath : commentary ∈ path
    · simp [hpath]
    · simpa [hpath] using (h.of_meet hmeet hpath).kindKept_iff

/-- A document with one rule. -/
def RuleDocument.ofRule (name : String) {v : Json} (hv : v.Distinct) : RuleDocument where
  members := [(name, v)]
  distinct := .of (fun _ h ↦ by cases h) (fun _ h ↦ mem_singleton.1 h ▸ hv) (nodup_singleton name)

def truthRule : RuleDocument := .ofRule "strict" (v := .bool true) (.plain rfl rfl)

def numberRule : RuleDocument := .ofRule "strict" (v := .int 1) (.plain rfl rfl)

/-- A number passes for a truth value. -/
theorem number_for_truth_value :
    findings "" truthRule.value numberRule.value = .ok [] ∧
    ¬KindsKept truthRule.value numberRule.value := by
  refine ⟨by decide, fun h ↦ ?_⟩
  have hkind := h ["strict"] (.bool true) (.int 1) ⟨rfl, rfl⟩
  simp [KindKept, Json.IsObject, kind, numberKind] at hkind

end CodeAtlas.Adapter
