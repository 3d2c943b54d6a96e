import CodeAtlas.Proofs.DocumentLaws

/-!
# Equality of documents

Documents are compared by value: numbers of all kinds by what they stand for, objects without regard
to the order of their members. Equality in this sense is transitive, and symmetric where no object
names a member twice. There, only the value that is not a number does not equal itself.
-/

namespace CodeAtlas

open Table List Json

namespace Double

variable {x y z : Double} {i : Int}

lemma ratio_ne_zero (x : Double) : (x.ratio.2 : Int) ≠ 0 := by
  rw [ratio]
  split
  · exact Int.natCast_ne_zero.2 (Nat.pow_pos two_pos).ne'
  · exact one_ne_zero

lemma toInt?_eq_some : x.toInt? = some i ↔ x.isFinite = true ∧ x.numerator = i * x.ratio.2 := by
  have hd := x.ratio_ne_zero
  rw [toInt?, numerator]
  generalize x.ratio = r at hd ⊢
  obtain ⟨n, d⟩ := r
  simp only [ne_eq, Int.natCast_eq_zero] at hd ⊢
  by_cases hdvd : d ∣ n
  · obtain ⟨q, rfl⟩ := hdvd
    simp only [Nat.mul_mod_right, if_true, Nat.mul_div_cancel_left q (Nat.pos_of_ne_zero hd),
      Nat.cast_mul, mul_comm (d : Int)]
    cases x.isNegative <;> simp [hd, ← neg_mul]
  · have hnone (heq : (if x.isNegative then -(n : Int) else n) = i * d) : False := by
      refine hdvd (Int.natCast_dvd_natCast.1 ?_)
      cases hsign : x.isNegative <;> simp only [hsign, if_true] at heq
      · exact ⟨i, by simpa [mul_comm] using heq⟩
      · exact ⟨-i, by linear_combination -heq⟩
    simp [mt Nat.dvd_of_mod_eq_zero hdvd, mt hnone not_false]

lemma same_iff : x.same y = true ↔
    (x.isFinite = true ∧ y.isFinite = true ∧ x.numerator * y.ratio.2 = y.numerator * x.ratio.2) ∨
      x.isInfinite = true ∧ x = y := by
  have hbits : x.bits = y.bits ↔ x = y := by
    cases x
    cases y
    simp
  simp only [same, ← hbits]
  grind

lemma same_self_iff : x.same x = true ↔ x.isNaN = false := by
  simp only [same_iff, isFinite, isInfinite, isNaN]
  grind

lemma same_of_toInt? (hx : x.toInt? = some i) (hy : y.toInt? = some i) : x.same y = true := by
  obtain ⟨hfinite, hx⟩ := toInt?_eq_some.1 hx
  obtain ⟨hfinite', hy⟩ := toInt?_eq_some.1 hy
  exact same_iff.2 (.inl ⟨hfinite, hfinite', by rw [hx, hy]; ring⟩)

lemma same_symm (h : x.same y = true) : y.same x = true := by
  rcases same_iff.1 h with ⟨hx, hy, heq⟩ | ⟨hx, rfl⟩
  · exact same_iff.2 (.inl ⟨hy, hx, heq.symm⟩)
  · exact h

lemma same_trans (hxy : x.same y = true) (hyz : y.same z = true) : x.same z = true := by
  rcases same_iff.1 hxy with ⟨hx, hy, heq⟩ | ⟨-, rfl⟩
  · rcases same_iff.1 hyz with ⟨-, hz, heq'⟩ | ⟨-, rfl⟩
    · refine same_iff.2 (.inl ⟨hx, hz, mul_right_cancel₀ y.ratio_ne_zero ?_⟩)
      linear_combination (z.ratio.2 : Int) * heq + (x.ratio.2 : Int) * heq'
    · exact hxy
  · exact hyz

lemma toInt?_of_same (h : x.same y = true) (hx : x.toInt? = some i) : y.toInt? = some i := by
  rcases same_iff.1 h with ⟨-, hfinite, heq⟩ | ⟨-, rfl⟩
  · obtain ⟨-, hx⟩ := toInt?_eq_some.1 hx
    refine toInt?_eq_some.2 ⟨hfinite, mul_right_cancel₀ x.ratio_ne_zero ?_⟩
    rw [← heq, hx]
    ring
  · exact hx

end Double

namespace Json

variable {a b c : Json} {i : Int}

/-- What holds of a document if it holds of its parts holds of every document. -/
lemma induction {P : Json → Prop}
    (h : ∀ v, (∀ w ∈ v.items, P w) → (∀ e ∈ v.members, P e.2) → P v) (v : Json) : P v := by
  have hplain {v : Json} (hitems : v.items = []) (hmembers : v.members = []) : P v :=
    h v (by simp [hitems]) (by simp [hmembers])
  exact @rec P (fun vs ↦ ∀ w ∈ vs, P w) (fun ms ↦ ∀ e ∈ ms, P e.2) (fun e ↦ P e.2)
    (hplain rfl rfl) (fun _ ↦ hplain rfl rfl) (fun _ ↦ hplain rfl rfl) (fun _ ↦ hplain rfl rfl)
    (fun _ ↦ hplain rfl rfl) (fun _ ih ↦ h _ ih (by simp [members]))
    (fun _ ih ↦ h _ (by simp [items]) ih) (by simp)
    (fun _ _ hw hrest ↦ forall_mem_cons.2 ⟨hw, hrest⟩)
    (by simp) (fun _ _ he hrest ↦ forall_mem_cons.2 ⟨he, hrest⟩) (fun _ _ hw ↦ hw) v

lemma sameItems_iff {vs ws : List Json} :
    sameItems vs ws = true ↔ Forall₂ (fun v w ↦ v.alike w = true) vs ws := by
  induction vs generalizing ws with
  | nil => cases ws <;> simp [sameItems]
  | cons v vs ih => cases ws <;> simp [sameItems, ih, alike]

lemma sameMembers_iff {vs ws : List (String × Json)} : sameMembers vs ws = true ↔
      ∀ e ∈ vs, ∃ w, get? ws e.1 = some w ∧ e.2.alike w = true := by
  induction vs with
  | nil => simp [sameMembers]
  | cons e vs ih =>
    rw [sameMembers, Bool.and_eq_true, ih, forall_mem_cons]
    cases get? ws e.1 <;> simp [alike]

lemma asInt?_of_same (h : a.same b = true) (ha : a.asInt? = some i) : b.asInt? = some i := by
  cases a <;> cases b <;> grind [same, asInt?, Double.toInt?_of_same]

lemma same_of_asInt? (ha : a.asInt? = some i) (hb : b.asInt? = some i) : a.same b = true := by
  cases a <;> cases b <;> grind [same, asInt?, Double.same_of_toInt?]

lemma null_same : null.same b = true ↔ b = .null := by
  cases b <;> simp [same]

lemma float_same {x : Double} (hx : x.toInt? = none) :
    (float x).same b = true ↔ ∃ y, b = .float y ∧ x.same y = true := by
  cases b <;> simp [same, hx]

lemma arr_same {vs : List Json} : (arr vs).same b = true ↔
    ∃ ws, b = .arr ws ∧ Forall₂ (fun v w ↦ v.alike w = true) vs ws := by
  cases b <;> simp [same, sameItems_iff]

lemma obj_same {vs : List (String × Json)} : (obj vs).same b = true ↔
    ∃ ws, b = .obj ws ∧ vs.length = ws.length ∧
      ∀ e ∈ vs, ∃ w, get? ws e.1 = some w ∧ e.2.alike w = true := by
  cases b <;> simp [same, sameMembers_iff]

lemma alike_refl (v : Json) : v.alike v = true := alike_iff.2 (.inr rfl)

lemma alike_trans (h : a.same b = true → b.same c = true → a.same c = true)
    (hab : a.alike b = true) (hbc : b.alike c = true) : a.alike c = true := by
  rcases alike_iff.1 hab with hab | rfl
  · rcases alike_iff.1 hbc with hbc | rfl
    · exact alike_iff.2 (.inl (h hab hbc))
    · exact alike_iff.2 (.inl hab)
  · exact hbc

lemma same_trans (hab : a.same b = true) (hbc : b.same c = true) : a.same c = true := by
  induction a using induction generalizing b c with
  | h a hitems hmembers =>
    cases hi : a.asInt? with
    | some i => exact same_of_asInt? hi (asInt?_of_same hbc (asInt?_of_same hab hi))
    | none =>
      cases a with
      | bool | int => cases hi
      | null =>
        obtain rfl := null_same.1 hab
        exact hbc
      | str s =>
        obtain rfl := str_same.1 hab
        exact hbc
      | float x =>
        obtain ⟨y, rfl, hxy⟩ := (float_same hi).1 hab
        have hy : y.toInt? = none :=
          Option.eq_none_iff_forall_ne_some.2 fun i hy ↦ by
            rw [asInt?, Double.toInt?_of_same (Double.same_symm hxy) hy] at hi
            cases hi
        obtain ⟨z, rfl, hyz⟩ := (float_same hy).1 hbc
        exact (float_same hi).2 ⟨z, rfl, Double.same_trans hxy hyz⟩
      | arr vs =>
        obtain ⟨ws, rfl, hvs⟩ := arr_same.1 hab
        obtain ⟨us, rfl, hws⟩ := arr_same.1 hbc
        refine arr_same.2 ⟨us, rfl, ?_⟩
        change ∀ w ∈ vs, _ at hitems
        clear hi hab hbc hmembers
        induction hvs generalizing us with
        | nil => exact hws
        | cons hv _ ih =>
          obtain _ | ⟨hw, hws⟩ := hws
          obtain ⟨hitem, hitems⟩ := forall_mem_cons.1 hitems
          exact .cons (alike_trans hitem hv hw) (ih _ hws hitems)
      | obj vs =>
        obtain ⟨ws, rfl, hlength, hvs⟩ := obj_same.1 hab
        obtain ⟨us, rfl, hlength', hws⟩ := obj_same.1 hbc
        refine obj_same.2 ⟨us, rfl, hlength.trans hlength', fun e he ↦ ?_⟩
        obtain ⟨w, hw, hsame⟩ := hvs e he
        obtain ⟨u, hu, hsame'⟩ := hws _ (mem_of_get? hw)
        exact ⟨u, hu, alike_trans (hmembers e he) hsame hsame'⟩

/-- No object in a document names a member twice. -/
inductive Distinct : Json → Prop
  | of {v : Json} (items : ∀ w ∈ v.items, Distinct w) (members : ∀ e ∈ v.members, Distinct e.2)
      (names : (Table.keys v.members).Nodup) : Distinct v

lemma Distinct.plain (hitems : a.items = []) (hmembers : a.members = []) : a.Distinct :=
  .of (by simp [hitems]) (by simp [hmembers]) (by simp [hmembers, Table.keys])

lemma alike_symm (h : a.same b = true → b.same a = true) (hab : a.alike b = true) :
    b.alike a = true :=
  alike_iff.2 ((alike_iff.1 hab).imp h Eq.symm)

lemma same_symm (ha : a.Distinct) (hb : b.Distinct) (h : a.same b = true) : b.same a = true := by
  induction a using induction generalizing b with
  | h a hitems hmembers =>
    cases hi : a.asInt? with
    | some i => exact same_of_asInt? (asInt?_of_same h hi) hi
    | none =>
      obtain ⟨hitemsa, hmembersa, hnames⟩ := ha
      obtain ⟨hitemsb, hmembersb, hnames'⟩ := hb
      cases a with
      | bool | int => cases hi
      | null =>
        obtain rfl := null_same.1 h
        exact h
      | str s =>
        obtain rfl := str_same.1 h
        exact h
      | float x =>
        obtain ⟨y, rfl, hxy⟩ := (float_same hi).1 h
        exact Double.same_symm hxy
      | arr vs =>
        obtain ⟨ws, rfl, hvs⟩ := arr_same.1 h
        refine arr_same.2 ⟨vs, rfl, ?_⟩
        change ∀ w ∈ vs, _ at hitems hitemsa
        change ∀ w ∈ ws, _ at hitemsb
        clear hi h hmembers hmembersa hmembersb hnames hnames'
        induction hvs with
        | nil => exact .nil
        | cons hv _ ih =>
          rw [forall_mem_cons] at hitems hitemsa hitemsb
          exact .cons (alike_symm (hitems.1 hitemsa.1 hitemsb.1) hv)
            (ih hitems.2 hitemsa.2 hitemsb.2)
      | obj vs =>
        obtain ⟨ws, rfl, hlength, hvs⟩ := obj_same.1 h
        change (keys vs).Nodup at hnames
        have hsubset : keys vs ⊆ keys ws := fun k hk ↦ by
          obtain ⟨e, he, rfl⟩ := mem_map.1 hk
          obtain ⟨w, hw, -⟩ := hvs e he
          exact mem_keys_of_get? hw
        have hperm : (Table.keys vs).Perm (Table.keys ws) :=
          (subperm_of_subset hnames hsubset).perm_of_length_le (by simp [Table.keys, hlength])
        refine obj_same.2 ⟨vs, rfl, hlength.symm, fun e he ↦ ?_⟩
        obtain ⟨v, hv⟩ := exists_of_mem_keys (hperm.mem_iff.2 (mem_map.2 ⟨e, he, rfl⟩))
        have hmem := mem_of_get? hv
        obtain ⟨w, hw, hsame⟩ := hvs _ hmem
        cases hw.symm.trans (Table.get?_of_mem hnames' he)
        exact ⟨v, hv, alike_symm (hmembers _ hmem (hmembersa _ hmem) (hmembersb _ he)) hsame⟩

/-- A document equals itself unless it is the value that is not a number: one further in passes. -/
lemma same_self_iff (ha : a.Distinct) : a.same a = true ↔ a.isNaN = false := by
  obtain ⟨-, -, hnames⟩ := ha
  cases a with
  | float x => exact Double.same_self_iff
  | arr vs => simp [isNaN, arr_same, forall₂_same, alike_refl]
  | obj vs =>
    exact iff_of_true (obj_same.2 ⟨vs, rfl, rfl, fun e he ↦
      ⟨e.2, Table.get?_of_mem hnames he, alike_refl e.2⟩⟩) rfl
  | _ => simp [same, isNaN]

end Json

end CodeAtlas
