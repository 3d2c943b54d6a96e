import CodeAtlas.Fault
import Mathlib

/-!
# Walks that keep what they have done

A walk changes a state step by step and may fail at any of them; what it has done by then stays. So
it is the state in which a walk ends that counts, whether it succeeds or fails, and a property of
states is kept by a walk if it is kept by all its steps.
-/

namespace CodeAtlas.Stepwise

variable {ε σ α β : Type}
variable {f : α → EStateM ε σ β} {x : EStateM ε σ α} {g : σ → σ} {xs : List α} {a : α}
  {e : ε} {s' : σ}

/-- The state in which a walk ends, whether it succeeds or fails. -/
def after (x : EStateM ε σ α) (s : σ) : σ :=
  match x s with
  | .ok _ s => s
  | .error _ s => s

lemma bind_of_ok {s : σ} (h : x s = .ok a s') : (x >>= f) s = f a s' := by
  simp only [bind, EStateM.bind, h]

lemma bind_of_error {s : σ} (h : x s = .error e s') : (x >>= f) s = .error e s' := by
  simp only [bind, EStateM.bind, h]

lemma after_bind_of_ok {s : σ} (h : x s = .ok a s') : after (x >>= f) s = after (f a) s' := by
  rw [after, after, bind_of_ok h]

lemma after_bind_of_error {s : σ} (h : x s = .error e s') : after (x >>= f) s = s' := by
  rw [after, bind_of_error h]

lemma after_of_ok {s : σ} (h : x s = .ok a s') : after x s = s' := by
  rw [after, h]

lemma after_of_error {s : σ} (h : x s = .error e s') : after x s = s' := by
  rw [after, h]

lemma run_bind_eq_ok {s : σ} {b : β} :
    (x >>= f) s = .ok b s' ↔ ∃ a middle, x s = .ok a middle ∧ f a middle = .ok b s' := by
  simp only [bind, EStateM.bind]
  cases x s <;> simp

/-- A computation without a state changes nothing, and what follows may use its result. -/
lemma after_get_bind {P : σ → Prop} {f : σ → EStateM ε σ β} {s : σ} (h : P (after (f s) s)) :
    P (after (get >>= f) s) := h

lemma after_lift_bind {P : σ → Prop} {x : Except ε α} {s : σ} (hs : P s)
    (h : ∀ a, x = .ok a → P (after (f a) s)) : P (after ((liftM x : EStateM ε σ α) >>= f) s) := by
  cases x with
  | ok a => exact h a rfl
  | error e => exact hs

/-- A property of walks that holds of all that is composed of walks it holds of. -/
structure Composes (K : (α : Type) → EStateM ε σ α → Prop) : Prop where
  pure : ∀ {α : Type} (a : α), K α (Pure.pure a)
  throw : ∀ {α : Type} (e : ε), K α (MonadExcept.throw e)
  bind : ∀ {α β : Type} {x : EStateM ε σ α} {f : α → EStateM ε σ β}, K α x → (∀ a, K β (f a)) →
    K β (x >>= f)
  lift_bind : ∀ {α β : Type} {x : Except ε α} {f : α → EStateM ε σ β},
    (∀ a, x = .ok a → K β (f a)) → K β ((liftM x : EStateM ε σ α) >>= f)

namespace Composes

variable {K : (α : Type) → EStateM ε σ α → Prop} (hK : Composes K)
include hK

lemma forM {f : α → EStateM ε σ PUnit} (h : ∀ x ∈ xs, K _ (f x)) : K _ (xs.forM f) := by
  induction xs with
  | nil => exact hK.pure _
  | cons x xs ih =>
    rw [List.forall_mem_cons] at h
    exact hK.bind h.1 fun _ ↦ ih h.2

lemma forIn {f : α → β → EStateM ε σ (ForInStep β)} (h : ∀ x ∈ xs, ∀ b, K _ (f x b)) (b : β) :
    K _ (ForIn.forIn xs b f) := by
  induction xs generalizing b with
  | nil => exact hK.pure b
  | cons x xs ih =>
    rw [List.forall_mem_cons] at h
    rw [List.forIn_cons]
    refine hK.bind (h.1 b) fun step ↦ ?_
    cases step with
    | done b => exact hK.pure b
    | yield b => exact ih h.2 b

end Composes

/-- A walk that keeps a property of states, however it ends. -/
def Keeps (P : σ → Prop) (x : EStateM ε σ α) : Prop := ∀ s, P s → P (after x s)

namespace Keeps

variable {P : σ → Prop}

lemma pure (a : α) : Keeps P (Pure.pure a : EStateM ε σ α) := fun _ hs ↦ hs

lemma throw (e : ε) : Keeps P (MonadExcept.throw e : EStateM ε σ α) := fun _ hs ↦ hs

lemma of_ok (h : Keeps P x) {s : σ} (hs : P s) (hrun : x s = .ok a s') : P s' :=
  after_of_ok hrun ▸ h s hs

lemma of_error (h : Keeps P x) {s : σ} (hs : P s) (hrun : x s = .error e s') : P s' :=
  after_of_error hrun ▸ h s hs

/-- What follows a walk need keep a property only after results that the walk can have. -/
lemma bind_of_run (hx : Keeps P x) (hf : ∀ a s s', x s = .ok a s' → Keeps P (f a)) :
    Keeps P (x >>= f) := by
  intro s hs
  cases hrun : x s with
  | ok a s' =>
    rw [after_bind_of_ok hrun]
    exact hf a s s' hrun s' (hx.of_ok hs hrun)
  | error e s' =>
    rw [after_bind_of_error hrun]
    exact hx.of_error hs hrun

lemma bind (hx : Keeps P x) (hf : ∀ a, Keeps P (f a)) : Keeps P (x >>= f) :=
  hx.bind_of_run fun a _ _ _ ↦ hf a

lemma of_modify (h : ∀ s, P s → P (g s)) : Keeps P (modify g : EStateM ε σ PUnit) := h

lemma of_set {s : σ} (h : P s) : Keeps P (set s : EStateM ε σ PUnit) := fun _ _ ↦ h

/-- Looking at the state changes nothing, and what follows may use what it sees. -/
lemma get_bind {f : σ → EStateM ε σ β} (h : ∀ s, P s → P (after (f s) s)) : Keeps P (get >>= f) := h

lemma lift (x : Except ε α) : Keeps P (liftM x : EStateM ε σ α) := by
  cases x with
  | ok a => exact pure a
  | error e => exact throw e

lemma lift_bind {x : Except ε α} (h : ∀ a, x = .ok a → Keeps P (f a)) :
    Keeps P ((liftM x : EStateM ε σ α) >>= f) :=
  fun s hs ↦ after_lift_bind hs fun a ha ↦ h a ha s hs

lemma composes (P : σ → Prop) : Composes fun α (x : EStateM ε σ α) ↦ Keeps P x where
  pure := .pure
  throw := .throw
  bind := .bind
  lift_bind := .lift_bind

lemma forM {f : α → EStateM ε σ PUnit} (h : ∀ x ∈ xs, Keeps P (f x)) : Keeps P (xs.forM f) :=
  (composes P).forM h

end Keeps

/-- Where a walk from a state comes to its end, a property of its result and of the state holds; and
it does come to its end under some condition. -/
def Ends (fine : Prop) (x : EStateM ε σ α) (s : σ) (Q : α → σ → Prop) : Prop :=
  (∀ a s', x s = .ok a s' → Q a s') ∧ (fine → ∃ a s', x s = .ok a s')

namespace Ends

variable {fine : Prop} {Q : α → σ → Prop} {R : β → σ → Prop} {s : σ}

lemma imp {fine' : Prop} {Q' : α → σ → Prop} (h : Ends fine x s Q) (hfine : fine' → fine)
    (hQ : ∀ a s', x s = .ok a s' → Q a s' → Q' a s') : Ends fine' x s Q' :=
  ⟨fun a s' hrun ↦ hQ a s' hrun (h.1 a s' hrun), fun hyes ↦ h.2 (hfine hyes)⟩

lemma pure (h : Q a s) : Ends fine (Pure.pure a : EStateM ε σ α) s Q := by
  refine ⟨fun b s' hrun ↦ ?_, fun _ ↦ ⟨a, s, rfl⟩⟩
  cases hrun
  exact h

lemma bind (hx : Ends fine x s Q) (hf : ∀ a s', x s = .ok a s' → Q a s' → Ends fine (f a) s' R) :
    Ends fine (x >>= f) s R := by
  constructor
  · intro b s'' hrun
    cases hfirst : x s with
    | ok a s' =>
      rw [bind_of_ok hfirst] at hrun
      exact (hf a s' hfirst (hx.1 a s' hfirst)).1 b s'' hrun
    | error e s' =>
      rw [bind_of_error hfirst] at hrun
      cases hrun
  · intro hyes
    obtain ⟨a, s', hfirst⟩ := hx.2 hyes
    rw [bind_of_ok hfirst]
    exact (hf a s' hfirst (hx.1 a s' hfirst)).2 hyes

lemma lift_bind {x : Except ε α} (hx : fine → ∃ a, x = .ok a)
    (hf : ∀ a, x = .ok a → Ends fine (f a) s R) :
    Ends fine ((liftM x : EStateM ε σ α) >>= f) s R := by
  cases x with
  | ok a => exact hf a rfl
  | error e =>
    refine ⟨fun b s' hrun ↦ ?_, fun hyes ↦ ?_⟩
    · cases hrun
    · obtain ⟨a, ha⟩ := hx hyes
      cases ha

lemma of_modify {Q : PUnit → σ → Prop} (h : Q ⟨⟩ (g s)) :
    Ends fine (modify g : EStateM ε σ PUnit) s Q := by
  refine ⟨fun _ s' hrun ↦ ?_, fun _ ↦ ⟨_, _, rfl⟩⟩
  cases hrun
  exact h

lemma modify_bind {f : PUnit → EStateM ε σ β} (h : Ends fine (f ⟨⟩) (g s) R) :
    Ends fine ((modify g : EStateM ε σ PUnit) >>= f) s R := h

lemma get_bind {f : σ → EStateM ε σ β} (h : Ends fine (f s) s R) : Ends fine (get >>= f) s R := h

end Ends

/-- From one state to another by one step for each of some things, in their order. -/
inductive Through {ι : Type} (R : ι → σ → σ → Prop) : List ι → σ → σ → Prop
  | nil (s : σ) : Through R [] s s
  | cons {i : ι} {is : List ι} {s t u : σ} (h : R i s t) (hrest : Through R is t u) :
      Through R (i :: is) s u

namespace Through

variable {ι : Type} {R : ι → σ → σ → Prop} {is js : List ι} {s t u : σ}

lemma append (h : Through R is s t) (h' : Through R js t u) : Through R (is ++ js) s u := by
  induction h with
  | nil => exact h'
  | cons hstep _ ih => exact .cons hstep (ih h')

lemma imp {R' : ι → σ → σ → Prop} {P : σ → Prop} (hR : ∀ i s t, P s → R i s t → P t ∧ R' i s t)
    (h : Through R is s t) (hs : P s) : P t ∧ Through R' is s t := by
  induction h with
  | nil => exact ⟨hs, .nil _⟩
  | cons hstep _ ih =>
    obtain ⟨ht, hstep⟩ := hR _ _ _ hs hstep
    exact ⟨(ih ht).1, .cons hstep (ih ht).2⟩

end Through

namespace Ends

variable {ι : Type} {R : ι → σ → σ → Prop} {fine : Prop}

lemma forIn {f : α → List ι} {body : α → PUnit → EStateM ε σ (ForInStep PUnit)}
    (h : ∀ x ∈ xs, ∀ s, Ends fine (body x ⟨⟩) s fun r s' ↦ r = .yield ⟨⟩ ∧ Through R (f x) s s')
    (s : σ) :
    Ends fine (ForIn.forIn xs PUnit.unit body) s fun _ s' ↦ Through R (xs.flatMap f) s s' := by
  induction xs generalizing s with
  | nil => exact .pure (.nil s)
  | cons x xs ih =>
    rw [List.forall_mem_cons] at h
    rw [List.forIn_cons]
    refine .bind (h.1 s) fun r s' _ hr ↦ ?_
    obtain ⟨rfl, hround⟩ := hr
    exact (ih h.2 s').imp id fun _ _ _ hrest ↦ hround.append hrest

lemma forM {f : α → List ι} {g : α → EStateM ε σ PUnit}
    (h : ∀ x s, Ends fine (g x) s fun _ s' ↦ Through R (f x) s s') (xs : List α) (s : σ) :
    Ends fine (xs.forM g) s fun _ s' ↦ Through R (xs.flatMap f) s s' := by
  induction xs generalizing s with
  | nil => exact .pure (.nil s)
  | cons x xs ih =>
    exact .bind (h x s) fun _ s' _ hround ↦ (ih s').imp id fun _ _ _ hrest ↦ hround.append hrest

end Ends

/-- Where a walk from a state fails, a property of the state that it stops in holds. -/
def Fails (x : EStateM ε σ α) (s : σ) (Q : σ → Prop) : Prop := ∀ e s', x s = .error e s' → Q s'

namespace Fails

variable {Q : σ → Prop} {s : σ}

lemma pure (a : α) : Fails (Pure.pure a : EStateM ε σ α) s Q := by
  intro e s' hrun
  cases hrun

lemma of_modify (g : σ → σ) : Fails (modify g : EStateM ε σ PUnit) s Q := by
  intro e s' hrun
  cases hrun

lemma bind (hx : Fails x s Q) (hf : ∀ a s', x s = .ok a s' → Fails (f a) s' Q) :
    Fails (x >>= f) s Q := by
  intro e s'' hrun
  cases hfirst : x s with
  | ok a s' => exact hf a s' hfirst e s'' ((bind_of_ok hfirst).symm.trans hrun)
  | error e' s' =>
    rw [bind_of_error hfirst] at hrun
    cases hrun
    exact hx _ _ hfirst

lemma lift_bind {x : Except ε α} (hs : Q s) (hf : ∀ a, x = .ok a → Fails (f a) s Q) :
    Fails ((liftM x : EStateM ε σ α) >>= f) s Q := by
  cases x with
  | ok a => exact hf a rfl
  | error e =>
    intro e' s' hrun
    cases hrun
    exact hs

lemma modify_bind {f : PUnit → EStateM ε σ β} (h : Fails (f ⟨⟩) (g s) Q) :
    Fails ((modify g : EStateM ε σ PUnit) >>= f) s Q := h

lemma get_bind {f : σ → EStateM ε σ β} (h : Fails (f s) s Q) : Fails (get >>= f) s Q := h

end Fails

/-- Two walks, each from a state of its own, go the same way: both succeed with the same result or
fail with the same error, in states that are related. -/
inductive Alike (R : σ → σ → Prop) (x y : EStateM ε σ α) (s t : σ) : Prop
  | ok {a : α} {s' t' : σ} (hx : x s = .ok a s') (hy : y t = .ok a t') (h : R s' t')
  | error {e : ε} {s' t' : σ} (hx : x s = .error e s') (hy : y t = .error e t') (h : R s' t')

namespace Alike

variable {R : σ → σ → Prop} {s t : σ}

lemma pure (h : R s t) (a : α) :
    Alike R (Pure.pure a : EStateM ε σ α) (Pure.pure a : EStateM ε σ α) s t := .ok rfl rfl h

lemma throw (h : R s t) (e : ε) :
    Alike R (MonadExcept.throw e : EStateM ε σ α) (MonadExcept.throw e : EStateM ε σ α) s t :=
  .error rfl rfl h

lemma of_modify {g' : σ → σ} (h : R (g s) (g' t)) :
    Alike R (modify g : EStateM ε σ PUnit) (modify g' : EStateM ε σ PUnit) s t := .ok rfl rfl h

lemma bind {y : EStateM ε σ α} {g : α → EStateM ε σ β} (hx : Alike R x y s t)
    (hf : ∀ a s' t', R s' t' → Alike R (f a) (g a) s' t') : Alike R (x >>= f) (y >>= g) s t := by
  cases hx with
  | @ok a s' t' hx hy h =>
    cases hf a s' t' h with
    | ok hx' hy' h' => exact .ok ((bind_of_ok hx).trans hx') ((bind_of_ok hy).trans hy') h'
    | error hx' hy' h' => exact .error ((bind_of_ok hx).trans hx') ((bind_of_ok hy).trans hy') h'
  | error hx hy h => exact .error (bind_of_error hx) (bind_of_error hy) h

lemma lift_bind {z : Except ε α} {g : α → EStateM ε σ β} (h : R s t)
    (hf : ∀ a, z = .ok a → Alike R (f a) (g a) s t) :
    Alike R ((liftM z : EStateM ε σ α) >>= f) ((liftM z : EStateM ε σ α) >>= g) s t := by
  cases z with
  | ok a => exact hf a rfl
  | error e => exact .error rfl rfl h

lemma get_bind {f g : σ → EStateM ε σ β} (h : Alike R (f s) (g t) s t) :
    Alike R (get >>= f) (get >>= g) s t := by
  cases h with
  | ok hx hy h => exact .ok hx hy h
  | error hx hy h => exact .error hx hy h

lemma congr {x' y y' : EStateM ε σ α} (hx : x s = x' s) (hy : y t = y' t) (h : Alike R x' y' s t) :
    Alike R x y s t := by
  cases h with
  | ok hx' hy' h => exact .ok (hx.trans hx') (hy.trans hy') h
  | error hx' hy' h => exact .error (hx.trans hx') (hy.trans hy') h

end Alike

/-- A walk goes the same way from any two states that are related. -/
def Uniform (R : σ → σ → Prop) (x : EStateM ε σ α) : Prop := ∀ s t, R s t → Alike R x x s t

lemma Alike.of_uniform {R : σ → σ → Prop} {s t : σ} (h : Uniform R x) (hR : R s t) :
    Alike R x x s t := h s t hR

namespace Uniform

variable {R : σ → σ → Prop}

lemma pure (a : α) : Uniform R (Pure.pure a : EStateM ε σ α) := fun _ _ h ↦ .pure h a

lemma throw (e : ε) : Uniform R (MonadExcept.throw e : EStateM ε σ α) := fun _ _ h ↦ .throw h e

lemma bind (hx : Uniform R x) (hf : ∀ a, Uniform R (f a)) : Uniform R (x >>= f) :=
  fun s t h ↦ .bind (hx s t h) fun a s' t' h' ↦ hf a s' t' h'

lemma of_modify (h : ∀ s t, R s t → R (g s) (g t)) : Uniform R (modify g : EStateM ε σ PUnit) :=
  fun s t hR ↦ .of_modify (h s t hR)

lemma lift (z : Except ε α) : Uniform R (liftM z : EStateM ε σ α) := by
  cases z with
  | ok a => exact pure a
  | error e => exact throw e

/-- Looking at a state; what follows may differ only in what the relation leaves open. -/
lemma get_bind {f : σ → EStateM ε σ β} (h : ∀ s t, R s t → Alike R (f s) (f t) s t) :
    Uniform R (get >>= f) := fun s t hR ↦ .get_bind (h s t hR)

lemma composes (R : σ → σ → Prop) : Composes fun α (x : EStateM ε σ α) ↦ Uniform R x where
  pure := .pure
  throw := .throw
  bind := .bind
  lift_bind h s t hR := .lift_bind hR fun a ha ↦ h a ha s t hR

lemma forM {f : α → EStateM ε σ PUnit} (h : ∀ x ∈ xs, Uniform R (f x)) : Uniform R (xs.forM f) :=
  (composes R).forM h

end Uniform

end CodeAtlas.Stepwise
