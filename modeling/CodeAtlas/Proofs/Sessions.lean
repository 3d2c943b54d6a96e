import CodeAtlas.Command.Session
import CodeAtlas.Proofs.Stepwise

/-!
# Commands that leave the files alone

Most of what a command does is to look at files and to print. What it comes to then depends on the
files and on where it runs, not on what was printed before, and it ends with a value or with a
fault. Such commands are put together from such commands, also where one is started by another one.
-/

namespace CodeAtlas.Command

open Command List

export Stepwise (bind_of_ok bind_of_error run_bind_eq_ok)

variable {s t u : Session}
variable {α β : Type}
variable {c : Command α} {f : α → Command β} {a : α}

/-- What a command comes to that leaves the files alone: a text and a value or a fault. -/
abbrev Answer (α : Type) := String × Except Fault α

/-- The session in which a command ends that has given an answer. -/
def told (s : Session) : Answer α → EStateM.Result Stop Session α
  | (text, .ok a) => .ok a { s with printed := s.printed ++ text }
  | (text, .error f) => .error (.fault f) { s with printed := s.printed ++ text }

/-- A command that only looks and prints. -/
def OnlyTells (c : Command α) : Prop :=
  ∃ answer : Tree → Path → Answer α, ∀ s, c s = told s (answer s.tree s.cwd)

/-- Two sessions have the same files and run at the same place. -/
structure SameFiles (s t : Session) : Prop where
  tree : t.tree = s.tree
  cwd : t.cwd = s.cwd

lemma SameFiles.refl (s : Session) : SameFiles s s := ⟨rfl, rfl⟩

lemma SameFiles.trans (h : SameFiles s t) (h' : SameFiles t u) : SameFiles s u :=
  ⟨h'.tree.trans h.tree, h'.cwd.trans h.cwd⟩

/-- The second session is the first with other text printed. -/
def Printed (s t : Session) : Prop := ∃ text, t = { s with printed := text }

lemma Printed.trans (h : Printed s t) (h' : Printed t u) : Printed s u := by
  obtain ⟨text, rfl⟩ := h
  obtain ⟨text', rfl⟩ := h'
  exact ⟨text', rfl⟩

lemma Printed.sameFiles (h : Printed s t) : SameFiles s t := by
  obtain ⟨text, rfl⟩ := h
  exact ⟨rfl, rfl⟩

/-- A command ends with a value. -/
def Gives (c : Command α) (s : Session) (a : α) : Prop := ∃ t, c s = .ok a t

lemma Gives.unique {b : α} (h : Gives c s a) (h' : Gives c s b) : a = b := by
  obtain ⟨t, ht⟩ := h
  obtain ⟨u, hu⟩ := h'
  rw [ht] at hu
  cases hu
  rfl

/-- The value that a command ends with, if it does. -/
def value? (c : Command α) (s : Session) : Option α :=
  match c s with
  | .ok a _ => some a
  | .error _ _ => none

lemma value?_eq_some_iff : value? c s = some a ↔ Gives c s a := by
  grind [Gives, value?]

instance [DecidableEq α] : Decidable (Gives c s a) := decidable_of_iff _ value?_eq_some_iff

lemma run_get (s : Session) : (get : Command Session) s = .ok s s := rfl

lemma run_set (s t : Session) : (set s : Command PUnit) t = .ok ⟨⟩ s := rfl

lemma run_absolute (p : Path) (s : Session) : absolute p s = .ok (s.cwd.join p) s := rfl

abbrev said (s : Session) (line : String) : Session :=
  { s with printed := s.printed ++ line ++ "\n" }

lemma run_say (line : String) (s : Session) : say line s = .ok () (said s line) := rfl

lemma lift_eq_told (x : Except Fault α) (s : Session) :
    (liftM x : Command α) s = told s ("", x) := by
  cases x <;> (rw [told, String.append_empty]; rfl)

lemma lift_eq_ok {x : Except Fault α} : (liftM x : Command α) s = .ok a t ↔ x = .ok a ∧ t = s := by
  cases x with
  | ok b =>
    rw [show (liftM (Except.ok b) : Command α) s = .ok b s from rfl, EStateM.Result.ok.injEq,
      Except.ok.injEq, eq_comm (a := s)]
  | error f => exact iff_of_false (fun h ↦ by cases h) (fun h ↦ by cases h.1)

lemma gives_lift {x : Except Fault α} : Gives (liftM x : Command α) s a ↔ x = .ok a := by
  simp [Gives, lift_eq_ok]

lemma gives_pure {b : α} : Gives (pure b) s a ↔ b = a := by
  simp [Gives, show (pure b : Command α) s = .ok b s from rfl]

lemma lift_bind_eq_ok {x : Except Fault α} {b : β} :
    ((liftM x : Command α) >>= f) s = .ok b t ↔ ∃ a, x = .ok a ∧ f a s = .ok b t := by
  simp [run_bind_eq_ok, lift_eq_ok]

/-- A run that has another value where a test fails ends with a value just if the test succeeds. -/
lemma unless_eq_ok {test : Command Bool} {out rest : Command α} (hout : ∀ s t, out s ≠ .ok a t) :
    (test >>= fun fine ↦ if !fine then out else rest) s = .ok a t ↔
      ∃ u, test s = .ok true u ∧ rest u = .ok a t := by
  rw [run_bind_eq_ok, Bool.exists_bool]
  exact or_iff_right fun ⟨u, _, h⟩ ↦ hout u t h

namespace OnlyTells

variable {body : Command Unit} {program : Path}

lemma cases (h : OnlyTells c) (s : Session) :
    (∃ a t, c s = .ok a t ∧ SameFiles s t) ∨ ∃ f t, c s = .error (.fault f) t ∧ SameFiles s t := by
  obtain ⟨answer, hanswer⟩ := h
  rw [hanswer s]
  obtain ⟨text, f | a⟩ := answer s.tree s.cwd
  · exact .inr ⟨f, _, rfl, rfl, rfl⟩
  · exact .inl ⟨a, _, rfl, rfl, rfl⟩

lemma sameFiles_of_ok (h : OnlyTells c) (hrun : c s = .ok a t) : SameFiles s t := by
  obtain ⟨b, u, hu, hsame⟩ | ⟨f, u, hu, -⟩ := h.cases s
  · rw [hrun] at hu
    cases hu
    exact hsame
  · rw [hrun] at hu
    cases hu

/-- Where such a command ends with a value, it has printed and done nothing else. -/
lemma printed_of_gives (h : OnlyTells c) (hgives : Gives c s a) :
    ∃ t, c s = .ok a t ∧ Printed s t := by
  obtain ⟨answer, hanswer⟩ := h
  obtain ⟨t, ht⟩ := hgives
  refine ⟨t, ht, ?_⟩
  rw [hanswer s] at ht
  revert ht
  obtain ⟨text, f | b⟩ := answer s.tree s.cwd
  · intro ht
    cases ht
  · intro ht
    cases ht
    exact ⟨_, rfl⟩

lemma of_bind_error (h : OnlyTells c) {e : Stop} (hrun : (c >>= f) s = .error e t) :
    (SameFiles s t ∧ ∃ g, e = .fault g) ∨ ∃ a u, c s = .ok a u ∧ SameFiles s u ∧
    f a u = .error e t := by
  obtain ⟨a, u, hu, hsame⟩ | ⟨g, u, hu, hsame⟩ := h.cases s
  · rw [bind_of_ok hu] at hrun
    exact .inr ⟨a, u, hu, hsame, hrun⟩
  · rw [bind_of_error hu] at hrun
    cases hrun
    exact .inl ⟨hsame, g, rfl⟩

lemma gives_congr (h : OnlyTells c) (hsame : SameFiles s t) : Gives c t a ↔ Gives c s a := by
  obtain ⟨answer, hanswer⟩ := h
  simp only [Gives, hanswer, hsame.tree, hsame.cwd]
  obtain ⟨text, f | b⟩ := answer s.tree s.cwd <;> simp [told]

lemma lift (x : Except Fault α) : OnlyTells (liftM x : Command α) :=
  ⟨fun _ _ ↦ ("", x), lift_eq_told x⟩

lemma pure (a : α) : OnlyTells (Pure.pure a : Command α) := lift (.ok a)

/-- Looking at the files and at the place where the command runs. -/
lemma look (f : Tree → Path → Except Fault α) :
    OnlyTells (do let s ← get; f s.tree s.cwd : Command α) :=
  ⟨fun tree cwd ↦ ("", f tree cwd), fun s ↦ lift_eq_told (f s.tree s.cwd) s⟩

lemma say (line : String) : OnlyTells (say line) := by
  refine ⟨fun _ _ ↦ (line ++ "\n", .ok ()), fun s ↦ ?_⟩
  rw [told, ← String.append_assoc]
  rfl

/-- One answer after another. -/
def next (r : Answer α) (f : α → Answer β) : Answer β :=
  match r with
  | (text, .ok a) => (text ++ (f a).1, (f a).2)
  | (text, .error e) => (text, .error e)

lemma bind (hc : OnlyTells c) (hf : ∀ a, OnlyTells (f a)) : OnlyTells (c >>= f) := by
  obtain ⟨answer, hanswer⟩ := hc
  choose answers hanswers using hf
  refine ⟨fun tree cwd ↦ next (answer tree cwd) fun a ↦ answers a tree cwd, fun s ↦ ?_⟩
  have hrun := hanswer s
  show _ = told s (next (answer s.tree s.cwd) _)
  revert hrun
  obtain ⟨text, e | a⟩ := answer s.tree s.cwd
  · intro hrun
    rw [bind_of_error hrun]
    rfl
  · intro hrun
    rw [bind_of_ok hrun, hanswers a, next]
    obtain ⟨text', e | b⟩ := answers a s.tree s.cwd <;> simp only [told, String.append_assoc]

/-- What follows such a command comes to the same as before it. -/
lemma gives_bind (hc : OnlyTells c) (hf : ∀ a, OnlyTells (f a)) {b : β} :
    Gives (c >>= f) s b ↔ ∃ a, Gives c s a ∧ Gives (f a) s b := by
  constructor
  · rintro ⟨t, ht⟩
    obtain ⟨a, u, hu, ht⟩ := run_bind_eq_ok.1 ht
    exact ⟨a, ⟨u, hu⟩, ((hf a).gives_congr (hc.sameFiles_of_ok hu)).1 ⟨t, ht⟩⟩
  · rintro ⟨a, ⟨u, hu⟩, hb⟩
    obtain ⟨t, ht⟩ := ((hf a).gives_congr (hc.sameFiles_of_ok hu)).2 hb
    exact ⟨t, (bind_of_ok hu).trans ht⟩

lemma mapM {xs : List α} (h : ∀ x ∈ xs, OnlyTells (f x)) : OnlyTells (xs.mapM f) := by
  induction xs with
  | nil => exact pure []
  | cons x xs ih =>
    rw [forall_mem_cons] at h
    rw [mapM_cons]
    exact bind h.1 fun _ ↦ bind (ih h.2) fun _ ↦ pure _

lemma attempt (h : OnlyTells c) : OnlyTells (attempt c) := by
  obtain ⟨answer, hanswer⟩ := h
  refine ⟨fun tree cwd ↦ ((answer tree cwd).1, .ok (answer tree cwd).2), fun s ↦ ?_⟩
  rw [Command.attempt, hanswer s]
  show _ = told s ((answer s.tree s.cwd).1, .ok (answer s.tree s.cwd).2)
  obtain ⟨text, f | a⟩ := answer s.tree s.cwd <;> rfl

/-- What is seen at a path. -/
def seen (test : Tree → Path → Bool) (p : Path) (tree : Tree) (cwd : Path) : Except Fault Bool :=
  match tree.locate (cwd.join p) with
  | .error .tooLong => .error (.nameTooLong p.text)
  | _ => .ok (test tree (cwd.join p))

lemma inspect_eq (test : Tree → Path → Bool) (p : Path) (s : Session) :
    inspect test p s = (liftM (seen test p s.tree s.cwd) : Command Bool) s := by
  rw [seen, inspect, bind_of_ok (run_get s), bind_of_ok (run_absolute p s)]
  obtain (_ | _ | _) | _ := s.tree.locate (s.cwd.join p)
  all_goals rfl

lemma inspect_eq_ok {test : Tree → Path → Bool} {p : Path} {b : Bool} :
    Command.inspect test p s = .ok b t ↔ seen test p s.tree s.cwd = .ok b ∧ t = s := by
  rw [inspect_eq, lift_eq_ok]

lemma inspect (test : Tree → Path → Bool) (p : Path) : OnlyTells (inspect test p) :=
  ⟨fun tree cwd ↦ ("", seen test p tree cwd), fun s ↦ by rw [inspect_eq, lift_eq_told]⟩

lemma isPresent (p : Path) : OnlyTells (isPresent p) := inspect _ p

lemma isFile (p : Path) : OnlyTells (isFile p) := inspect _ p

lemma readText (p : Path) : OnlyTells (readText p) :=
  look fun tree cwd ↦ tree.text (cwd.join p) p.text

lemma readJson (p : Path) : OnlyTells (readJson p) :=
  bind (readText p) fun _ ↦ lift _

/-- How a command ends that is run apart. -/
def ending (r : Answer Unit) : Option Stop × String :=
  match r with
  | (text, .ok _) => (none, "" ++ text)
  | (text, .error f) => (some (.fault f), "" ++ text)

lemma apart_eq {c : Command Unit} {answer : Tree → Path → Answer Unit}
    (h : ∀ s, c s = told s (answer s.tree s.cwd)) (s : Session) :
    apart c s = .ok (ending (answer s.tree s.cwd)) s := by
  rw [apart, h]
  obtain ⟨text, f | a⟩ := answer s.tree s.cwd <;> rfl

lemma apart {c : Command Unit} (h : OnlyTells c) : OnlyTells (apart c) := by
  obtain ⟨answer, hanswer⟩ := h
  refine ⟨fun tree cwd ↦ ("", .ok (ending (answer tree cwd))), fun s ↦ ?_⟩
  rw [apart_eq hanswer, told, String.append_empty]

lemma start (l : Layout) (program : Path) (h : OnlyTells body) :
    OnlyTells (start l program body) := by
  refine bind (isFile program) fun installed ↦ ?_
  split
  · refine bind (apart h) fun e ↦ ?_
    split
    all_goals exact pure _
  · exact pure _

/-- A program that is started ends, and it ends well just if it is there and its command does. -/
lemma exists_start (h : OnlyTells body) (l : Layout) {installed : Bool}
    (hprogram : Gives (Command.isFile program) s installed) :
    ∃ e, Gives (Command.start l program body) s e ∧
      (e.code = 0 ↔ installed = true ∧ Gives body s ()) := by
  obtain ⟨answer, hanswer⟩ := h
  obtain ⟨t, ht⟩ := hprogram
  have hsame := (isFile program).sameFiles_of_ok ht
  simp only [Gives, Command.start, bind_of_ok ht, hanswer, ← hsame.tree, ← hsame.cwd]
  cases installed with
  | false => exact ⟨_, ⟨_, rfl⟩, by simp [unopened]⟩
  | true =>
    rw [if_pos rfl, bind_of_ok (apart_eq hanswer t)]
    obtain ⟨text, f | a⟩ := answer t.tree t.cwd <;> exact ⟨_, ⟨_, rfl⟩, by simp [told]⟩

/-- A run that begins with such a command ends with an exit code just if what follows does. -/
lemma exits_bind (hc : OnlyTells c) {code : Int} {R : α → Prop} (hs : SameFiles s t)
    (hf : ∀ a u, SameFiles s u → ((∃ v, f a u = .error (.exit code) v) ↔ R a)) :
    (∃ v, (c >>= f) t = .error (.exit code) v) ↔ ∃ a, Gives c s a ∧ R a := by
  constructor
  · rintro ⟨v, hv⟩
    obtain ⟨-, g, hg⟩ | ⟨a, u, hu, hsame, hv⟩ := hc.of_bind_error hv
    · cases hg
    · exact ⟨a, (hc.gives_congr hs).1 ⟨u, hu⟩, (hf a u (hs.trans hsame)).1 ⟨v, hv⟩⟩
  · rintro ⟨a, ha, hR⟩
    obtain ⟨u, hu⟩ := (hc.gives_congr hs).2 ha
    obtain ⟨v, hv⟩ := (hf a u (hs.trans (hc.sameFiles_of_ok hu))).2 hR
    exact ⟨v, (bind_of_ok hu).trans hv⟩

end OnlyTells

/-- A command that stops with a fault or in one of some other ways, and then leaves the files alone.
-/
def FailsSafely (c : Command α) (stops : List Stop) : Prop :=
  ∀ s e t, c s = .error e t → SameFiles s t ∧ ((∃ f, e = .fault f) ∨ e ∈ stops)

variable {stops : List Stop}

lemma OnlyTells.bind_failsSafely (hc : OnlyTells c) (hf : ∀ a, FailsSafely (f a) stops) :
    FailsSafely (c >>= f) stops := by
  intro s e t hrun
  obtain ⟨hsame, hfault⟩ | ⟨a, u, -, hsame, hlater⟩ := hc.of_bind_error hrun
  · exact ⟨hsame, .inl hfault⟩
  · obtain ⟨hsame', hstop⟩ := hf a u e t hlater
    exact ⟨hsame.trans hsame', hstop⟩

lemma FailsSafely.bind (hc : FailsSafely c stops) (hf : ∀ a s, ∃ b t, f a s = .ok b t) :
    FailsSafely (c >>= f) stops := by
  intro s e t hrun
  cases hfirst : c s with
  | ok a u =>
    obtain ⟨b, v, hv⟩ := hf a u
    rw [bind_of_ok hfirst, hv] at hrun
    cases hrun
  | error e' u =>
    rw [bind_of_error hfirst] at hrun
    cases hrun
    exact hc s e t hfirst

lemma failsSafely_writeText (p : Path) (content : String) :
    FailsSafely (writeText p content) stops := by
  intro s e t hrun
  have heq : writeText p content s =
      ((liftM (s.tree.write (s.cwd.join p) p.text content.toUTF8) : Command Tree) >>= fun tree ↦
        modify fun s ↦ { s with tree }) s := rfl
  rw [heq] at hrun
  cases hwrite : s.tree.write (s.cwd.join p) p.text content.toUTF8 with
  | ok tree =>
    rw [hwrite] at hrun
    cases hrun
  | error f =>
    rw [hwrite] at hrun
    cases hrun
    exact ⟨.refl s, .inl ⟨f, rfl⟩⟩

end CodeAtlas.Command
