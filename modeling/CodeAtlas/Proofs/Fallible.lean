import Mathlib

/-!
# Computations that may fail

A computation that has succeeded has gone through all its steps, and each of them has succeeded.
The lemmas here take such a computation apart: one step after another, a fold over a list, and the
maps over a list that may fail at an item.
-/

namespace CodeAtlas.Fallible

open List

variable {ε α β : Type}
variable {xs : List α} {f g : β → α → Except ε β} {b b' : β} {ys : List β} {x : Except ε α} {y : β}

lemma bind_eq_ok {f : α → Except ε β} : x >>= f = .ok b ↔ ∃ a, x = .ok a ∧ f a = .ok b := by
  cases x <;> simp [bind, Except.bind]

lemma pure_eq_ok {a b : α} : (pure a : Except ε α) = .ok b ↔ a = b := by
  simp [pure, Except.pure]

lemma toOption_eq_some {a : α} : x.toOption = some a ↔ x = .ok a := by
  cases x <;> simp [Except.toOption]

/-- What each step keeps of the items met so far, a whole fold keeps of all items. -/
lemma foldlM_invariant (P : List α → β → Prop)
    (hstep : ∀ met b x b', P met b → f b x = .ok b' → P (met ++ [x]) b') (hstart : P [] b)
    (hrun : xs.foldlM f b = .ok b') : P xs b' := by
  -- The induction is on the items still to come; those met so far are a parameter of it.
  have hgeneral : ∀ (met : List α) (c : β), P met c → xs.foldlM f c = .ok b' →
      P (met ++ xs) b' := by
    clear hstart hrun
    induction xs with
    | nil =>
      intro met c hmet hrun
      rw [foldlM_nil, pure_eq_ok] at hrun
      subst hrun
      simpa using hmet
    | cons x xs ih =>
      intro met c hmet hrun
      rw [foldlM_cons, bind_eq_ok] at hrun
      obtain ⟨middle, hx, hrest⟩ := hrun
      simpa using ih (met ++ [x]) middle (hstep met c x middle hmet hx) hrest
  simpa using hgeneral [] b hstart hrun

lemma foldlM_succeeds (hstep : ∀ b, ∀ x ∈ xs, ∃ b', f b x = .ok b') (b : β) :
    ∃ b', xs.foldlM f b = .ok b' := by
  induction xs generalizing b with
  | nil => exact ⟨b, rfl⟩
  | cons x xs ih =>
    obtain ⟨middle, hx⟩ := hstep b x (by simp)
    obtain ⟨last, hlast⟩ := ih (fun b y hy ↦ hstep b y (by simp [hy])) middle
    refine ⟨last, ?_⟩
    rw [foldlM_cons, bind_eq_ok]
    exact ⟨middle, hx, hlast⟩

/-- A fold with a state succeeds, and keeps what each step keeps, if each step can be taken from
wherever the fold gets to. -/
lemma foldlM_run_succeeds {σ : Type} {f : β → α → StateT σ (Except ε) β} (P : List α → β → σ → Prop)
    (hstep : ∀ met, ∀ x ∈ xs, ∀ b s, P met b s →
      ∃ b' s', (f b x).run s = .ok (b', s') ∧ P (met ++ [x]) b' s') {s : σ} (hstart : P [] b s) :
    ∃ b' s', (xs.foldlM f b).run s = .ok (b', s') ∧ P xs b' s' := by
  -- As above, the items met so far are a parameter of the induction.
  have hgeneral : ∀ (met : List α) (b : β) (s : σ), P met b s →
      ∃ b' s', (xs.foldlM f b).run s = .ok (b', s') ∧ P (met ++ xs) b' s' := by
    induction xs with
    | nil =>
      intro met b s hmet
      exact ⟨b, s, rfl, by simpa using hmet⟩
    | cons x xs ih =>
      intro met b s hmet
      obtain ⟨middle, s', hx, hmiddle⟩ := hstep met x (by simp) b s hmet
      obtain ⟨last, s'', hlast, hend⟩ :=
        ih (fun met y hy ↦ hstep met y (by simp [hy])) (met ++ [x]) middle s' hmiddle
      refine ⟨last, s'', ?_, by simpa using hend⟩
      rw [foldlM_cons, StateT.run_bind, hx]
      exact hlast
  simpa using hgeneral [] b s hstart

/-- A fold whose steps succeed or fail with their item alone, wherever it gets to, succeeds just if
they all do. -/
lemma foldlM_completes_iff (P : β → Prop) {Q : α → Prop}
    (hstep : ∀ b x, P b → ((∃ b', f b x = .ok b') ↔ Q x))
    (hkeep : ∀ b x b', P b → f b x = .ok b' → P b')
    (hstart : P b) (xs : List α) : (∃ b', xs.foldlM f b = .ok b') ↔ ∀ x ∈ xs, Q x := by
  induction xs generalizing b with
  | nil => simp [pure_eq_ok]
  | cons x xs ih =>
    simp only [foldlM_cons, bind_eq_ok, forall_mem_cons, ← hstep b x hstart]
    constructor
    · rintro ⟨last, middle, hx, hrest⟩
      exact ⟨⟨middle, hx⟩, (ih (hkeep b x middle hstart hx)).1 ⟨last, hrest⟩⟩
    · rintro ⟨⟨middle, hx⟩, hall⟩
      obtain ⟨last, hrest⟩ := (ih (hkeep b x middle hstart hx)).2 hall
      exact ⟨last, middle, hx, hrest⟩

/-- A fold follows another one, step by step, if each of its steps can follow a step of the other.
-/
lemma foldlM_follows {γ : Type} {g : γ → α → Except ε γ} (R : β → γ → Prop)
    (hstep : ∀ b c x b', R b c → f b x = .ok b' → ∃ c', g c x = .ok c' ∧ R b' c') {c : γ}
    (hstart : R b c) (hrun : xs.foldlM f b = .ok b') : ∃ c', xs.foldlM g c = .ok c' ∧ R b' c' := by
  induction xs generalizing b c with
  | nil =>
    rw [foldlM_nil, pure_eq_ok] at hrun
    exact ⟨c, rfl, hrun ▸ hstart⟩
  | cons x xs ih =>
    rw [foldlM_cons, bind_eq_ok] at hrun
    obtain ⟨middle, hx, hrest⟩ := hrun
    obtain ⟨middle', hx', hmiddle⟩ := hstep b c x middle hstart hx
    obtain ⟨last, hlast, hend⟩ := ih hmiddle hrest
    refine ⟨last, ?_, hend⟩
    rw [foldlM_cons, bind_eq_ok]
    exact ⟨middle', hx', hlast⟩

/-- Two folds are the same if their steps are, wherever the folds get to. -/
lemma foldlM_congr (P : β → Prop) (hstep : ∀ b x, P b → f b x = g b x)
    (hkeep : ∀ b x b', P b → g b x = .ok b' → P b') (hstart : P b) (xs : List α) :
    xs.foldlM f b = xs.foldlM g b := by
  induction xs generalizing b with
  | nil => rfl
  | cons x xs ih =>
    rw [foldlM_cons, foldlM_cons, hstep b x hstart]
    cases hx : g b x with
    | error e => rfl
    | ok middle => exact ih (hkeep b x middle hstart hx)

lemma foldlM_congr_of_mem (h : ∀ b, ∀ x ∈ xs, f b x = g b x) : xs.foldlM f b = xs.foldlM g b := by
  induction xs generalizing b with
  | nil => rfl
  | cons x xs ih =>
    rw [foldlM_cons, foldlM_cons, h b x mem_cons_self]
    exact bind_congr fun _ ↦ ih fun b y hy ↦ h b y (mem_cons_of_mem _ hy)

/-- Every item of a fold that has succeeded was met by a step that has. -/
lemma exists_step_of_mem (hrun : xs.foldlM f b = .ok b') {x : α} (hx : x ∈ xs) :
    ∃ c c', f c x = .ok c' := by
  have h : ∀ y ∈ xs, ∃ c c', f c y = .ok c' := by
    refine foldlM_invariant (fun met _ ↦ ∀ y ∈ met, ∃ c c', f c y = .ok c') ?_ (by simp) hrun
    exact fun _ c _ c' hmet hy ↦ forall_mem_append.2 ⟨hmet, forall_mem_singleton.2 ⟨c, c', hy⟩⟩
  exact h x hx

section Forall₂

variable {R : α → β → Prop}

lemma exists_left_of_mem (h : Forall₂ R xs ys) (hy : y ∈ ys) : ∃ x ∈ xs, R x y := by
  induction h with
  | nil => cases hy
  | cons hhead _ ih =>
    rcases mem_cons.1 hy with rfl | hy
    · exact ⟨_, mem_cons_self, hhead⟩
    · obtain ⟨x, hx, hxy⟩ := ih hy
      exact ⟨x, mem_cons_of_mem _ hx, hxy⟩

lemma exists_right_of_mem (h : Forall₂ R xs ys) {x : α} (hx : x ∈ xs) : ∃ y ∈ ys, R x y :=
  exists_left_of_mem h.flip hx

end Forall₂

lemma mapM_eq_ok {f : α → Except ε β} :
    xs.mapM f = .ok ys ↔ List.Forall₂ (fun x y ↦ f x = .ok y) xs ys := by
  induction xs generalizing ys with
  | nil => rw [mapM_nil, pure_eq_ok, forall₂_nil_left_iff, eq_comm]
  | cons x xs ih =>
    simp only [mapM_cons, bind_eq_ok, pure_eq_ok, forall₂_cons_left_iff, ih]
    constructor
    · rintro ⟨y, hy, rest, hrest, rfl⟩
      exact ⟨y, rest, hy, hrest, rfl⟩
    · rintro ⟨y, rest, hy, hrest, rfl⟩
      exact ⟨y, hy, rest, hrest, rfl⟩

lemma mem_mapM {f : α → Except ε β} (hrun : xs.mapM f = .ok ys) :
    y ∈ ys ↔ ∃ x ∈ xs, f x = .ok y := by
  have hforall := mapM_eq_ok.1 hrun
  clear hrun
  induction hforall with
  | nil => simp
  | cons hx _ ih => simp [ih, hx, eq_comm]

lemma mapM_of_forall {f : α → Except ε β} {g : α → β} (h : ∀ x ∈ xs, f x = .ok (g x)) :
    xs.mapM f = .ok (xs.map g) := by
  rw [mapM_eq_ok, forall₂_map_right_iff, forall₂_same]
  exact h

lemma exists_mapM_of_forall {f : α → Except ε β} (h : ∀ x ∈ xs, ∃ y, f x = .ok y) :
    ∃ ys, xs.mapM f = .ok ys := by
  simp only [mapM_eq_ok]
  induction xs with
  | nil => exact ⟨[], .nil⟩
  | cons x xs ih =>
    obtain ⟨⟨y, hy⟩, hrest⟩ := forall_mem_cons.1 h
    obtain ⟨ys, hys⟩ := ih hrest
    exact ⟨y :: ys, .cons hy hys⟩

lemma mapM_flatten_eq_nil_iff {f : α → Except ε (List β)} :
    (∃ ys, xs.mapM f = .ok ys ∧ ys.flatten = []) ↔ ∀ x ∈ xs, f x = .ok [] := by
  simp only [mapM_eq_ok]
  induction xs with
  | nil => simp
  | cons x xs ih =>
    rw [forall_mem_cons, ← ih]
    constructor
    · rintro ⟨ys, hys, hflat⟩
      cases hys with
      | cons hx hrest =>
        rw [flatten_cons, append_eq_nil_iff] at hflat
        exact ⟨hflat.1 ▸ hx, _, hrest, hflat.2⟩
    · rintro ⟨hx, ys, hys, hflat⟩
      exact ⟨[] :: ys, .cons hx hys, hflat⟩

lemma exists_filterMapM_of_forall {f : α → Except ε (Option β)} (h : ∀ x ∈ xs, ∃ y, f x = .ok y) :
    ∃ ys, xs.filterMapM f = .ok ys := by
  induction xs with
  | nil => exact ⟨[], rfl⟩
  | cons x xs ih =>
    obtain ⟨⟨y, hy⟩, hrest⟩ := forall_mem_cons.1 h
    obtain ⟨ys, hys⟩ := ih hrest
    simp only [filterMapM_cons, bind_eq_ok]
    cases y with
    | none => exact ⟨ys, none, hy, hys⟩
    | some z => exact ⟨z :: ys, some z, hy, bind_eq_ok.2 ⟨ys, hys, rfl⟩⟩

lemma filterMapM_of_forall {f : α → Except ε (Option β)} {g : α → Option β}
    (h : ∀ x ∈ xs, f x = .ok (g x)) : xs.filterMapM f = .ok (xs.filterMap g) := by
  induction xs with
  | nil => rfl
  | cons x xs ih =>
    obtain ⟨hx, hrest⟩ := forall_mem_cons.1 h
    rw [filterMapM_cons, hx, filterMap_cons]
    cases g x with
    | none => exact ih hrest
    | some y =>
      rw [ih hrest]
      rfl

lemma filterM_of_forall {f : α → Except ε Bool} {p : α → Bool} (h : ∀ x ∈ xs, f x = .ok (p x)) :
    xs.filterM f = .ok (xs.filter p) := by
  -- The items kept so far are gathered in front of each other, so they are a parameter here.
  have hgeneral (kept : List α) : xs.filterAuxM f kept = .ok ((xs.filter p).reverse ++ kept) := by
    induction xs generalizing kept with
    | nil => rfl
    | cons x xs ih =>
      obtain ⟨hx, hrest⟩ := forall_mem_cons.1 h
      rw [List.filterAuxM, hx]
      change List.filterAuxM f xs (bif p x then x :: kept else kept) = _
      rw [ih hrest, filter_cons]
      cases p x <;> simp
  rw [List.filterM, hgeneral]
  simp [bind, Except.bind, pure, Except.pure]

/-- A filter that has succeeded has tested every item, and keeps those that pass. -/
lemma filterM_eq_ok {f : α → Except ε Bool} {ys : List α} (h : xs.filterM f = .ok ys) :
    (∀ x ∈ xs, ∃ b, f x = .ok b) ∧ ∀ x, x ∈ ys ↔ x ∈ xs ∧ f x = .ok true := by
  have hgeneral (kept ys : List α) (h : xs.filterAuxM f kept = .ok ys) :
      ∀ x ∈ xs, ∃ b, f x = .ok b := by
    clear * - h
    induction xs generalizing kept with
    | nil => simp
    | cons x xs ih =>
      obtain ⟨b, hx, hrest⟩ := bind_eq_ok.1 h
      exact forall_mem_cons.2 ⟨⟨b, hx⟩, ih _ hrest⟩
  obtain ⟨kept, hkept, -⟩ := bind_eq_ok.1 h
  have htested := hgeneral _ kept hkept
  refine ⟨htested, fun x ↦ ?_⟩
  have hpasses : ∀ x ∈ xs, f x = .ok ((f x).toOption.getD false) := by
    intro x hx
    obtain ⟨b, hb⟩ := htested x hx
    rw [hb]
    rfl
  rw [filterM_of_forall hpasses, Except.ok.injEq] at h
  rw [← h, mem_filter]
  refine and_congr_right fun hx ↦ ?_
  rw [hpasses x hx]
  simp [Except.toOption]

lemma mem_filterMapM {f : α → Except ε (Option β)} (hrun : xs.filterMapM f = .ok ys) :
    y ∈ ys ↔ ∃ x ∈ xs, f x = .ok (some y) := by
  induction xs generalizing ys with
  | nil =>
    rw [filterMapM_nil, pure_eq_ok] at hrun
    simp [← hrun]
  | cons x xs ih =>
    rw [filterMapM_cons, bind_eq_ok] at hrun
    obtain ⟨found, hx, hrest⟩ := hrun
    cases found with
    | none => simp [ih hrest, hx]
    | some z =>
      obtain ⟨rest, hrun, hys⟩ := bind_eq_ok.1 hrest
      rw [pure_eq_ok] at hys
      subst hys
      simp [ih hrun, hx, eq_comm]

end CodeAtlas.Fallible
