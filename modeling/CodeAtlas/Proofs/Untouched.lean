import CodeAtlas.Proofs.BuilderRuns

/-!
# Places that a run leaves alone

A command that looks at files and prints leaves every place as it is, and one that writes, makes or
takes away something leaves those places as they are that it is not told of. So a builder or a check
that is started changes nothing but the file it is to write and the directories above it.
-/

namespace CodeAtlas.Command

open Stepwise

variable {p out : Path}
variable {α : Type} {spot : List String} {e : Option Entry}
variable {c : Command α}

/-- What stands at a place in the files of a session. -/
def Holds (spot : List String) (e : Option Entry) (s : Session) :
    Prop := Tree.entry? s.tree spot = e

lemma keeps_of_onlyTells (h : OnlyTells c) : Keeps (Holds spot e) c := by
  intro s hs
  obtain ⟨a, t, ht, hsame⟩ | ⟨f, t, ht, hsame⟩ := h.cases s
  · rw [after_of_ok ht, Holds, hsame.tree]
    exact hs
  · rw [after_of_error ht, Holds, hsame.tree]
    exact hs

lemma keeps_say (line : String) : Keeps (Holds spot e) (say line) := keeps_of_onlyTells (.say line)

lemma keeps_lift (x : Except Fault α) : Keeps (Holds spot e) (liftM x : Command α) :=
  keeps_of_onlyTells (.lift x)

lemma keeps_say_exit (line : String) (code : Int) :
    Keeps (Holds spot e) (do say line; exit code : Command α) :=
  .bind (keeps_say line) fun _ ↦ .throw _

lemma keeps_unless_exit (failed : Prop) [Decidable failed] (line : String) (code : Int)
    {rest : Command α} (h : Keeps (Holds spot e) rest) :
    Keeps (Holds spot e) (if failed then do say line; let _ ← (exit code : Command PUnit); rest
      else rest) := by
  split
  · exact .bind (keeps_say line) fun _ ↦ .bind (.throw _) fun _ ↦ h
  · exact h

lemma keeps_attempt (h : Keeps (Holds spot e) c) : Keeps (Holds spot e) (attempt c) := by
  intro s hs
  have hafter := h s hs
  revert hafter
  rw [after, after, attempt]
  cases c s with
  | ok a t => exact id
  | error stop t =>
    cases stop <;> exact id

lemma keeps_apart {c : Command Unit} (h : Keeps (Holds spot e) c) :
    Keeps (Holds spot e) (apart c) := by
  intro s hs
  have hafter := h { s with printed := "" } hs
  revert hafter
  rw [after, after, apart]
  cases c { s with printed := "" } <;> exact id

lemma keeps_start (l : Layout) (program : Path) {body : Command Unit}
    (h : Keeps (Holds spot e) body) :
    Keeps (Holds spot e) (start l program body) := by
  refine .bind (keeps_of_onlyTells (.isFile program)) fun installed ↦ ?_
  split
  · refine .bind (keeps_apart h) fun ended ↦ ?_
    split
    all_goals exact .pure _
  · exact .pure _

lemma keeps_startForeign {l : Layout} {program : Path} {root out : String}
    (h : ∀ tree, Tree.entry? (l.foreign program root out tree).2 spot = Tree.entry? tree spot) :
    Keeps (Holds spot e) (startForeign l program root out) := by
  refine .bind (keeps_of_onlyTells (.isFile program)) fun installed ↦ ?_
  split
  · exact .get_bind fun s hs ↦ (h s.tree).trans hs
  · exact .pure _

lemma holds_after_store {x : Except Fault Tree} {s : Session} (hs : Holds spot e s)
    (h : ∀ tree, x = .ok tree → Tree.entry? tree spot = Tree.entry? s.tree spot) :
    Holds spot e (after (do let tree ← x; modify fun s ↦ { s with tree } : Command Unit) s) := by
  cases x with
  | ok tree => exact (h tree rfl).trans hs
  | error f => exact hs

lemma keeps_write (hp : p.IsPlace) (hne : spot ≠ p.parts) (shown : String) (b : ByteArray) :
    Keeps (Holds spot e) (do
      let tree ← (← get).tree.write (← absolute p) shown b
      modify fun s ↦ { s with tree } : Command Unit) := by
  intro s hs
  rw [after_bind_of_ok (run_get s), after_bind_of_ok (run_absolute p s)]
  refine holds_after_store hs fun tree htree ↦ Tree.entry?_of_write_of_ne htree ?_
  rwa [hp.join, hp.collapse]

lemma keeps_writeText (hp : p.IsPlace) (hne : spot ≠ p.parts) (content : String) :
    Keeps (Holds spot e) (writeText p content) := keeps_write hp hne p.text _

lemma keeps_ensureDirectory (hp : p.IsPlace) (hnot : ¬spot <+: p.parts) :
    Keeps (Holds spot e) (ensureDirectory p) := fun _ hs ↦
  holds_after_store hs fun _ htree ↦ Tree.entry?_of_makeDirectories hp htree hnot

lemma keeps_makeDirectory (hp : p.IsPlace) (hne : spot ≠ p.parts) :
    Keeps (Holds spot e) (makeDirectory p) := by
  intro s hs
  have hmade : ∀ tree, s.tree.makeDirectory (s.cwd.join p) p.text = .ok tree →
      Tree.entry? tree spot = Tree.entry? s.tree spot := by
    intro tree htree
    refine Tree.entry?_of_makeDirectory htree ?_
    rwa [hp.join, hp.collapse]
  rw [makeDirectory, after_bind_of_ok (run_get s), after_bind_of_ok (run_absolute p s)]
  split
  next tree htree => exact (hmade tree htree).trans hs
  next f _ =>
    have hrest : Keeps (Holds spot e)
        (do if ← isDirectory p then pure () else throw (.fault f) : Command Unit) := by
      refine .bind (keeps_of_onlyTells (.inspect _ p)) fun there ↦ ?_
      split
      · exact .pure _
      · exact .throw _
    exact hrest s hs

lemma keeps_removeFile (h : ∀ cwd : Path, ¬Path.collapse (cwd.join p).parts <+: spot) :
    Keeps (Holds spot e) (removeFile p) := by
  have hremove : Keeps (Holds spot e) (do
      let place ← absolute p
      modify fun s ↦ { s with tree := s.tree.remove (Path.collapse place.parts) } : Command Unit) :=
    fun s hs ↦ (Tree.entry?_remove (h s.cwd)).trans hs
  refine .bind (keeps_of_onlyTells (.inspect _ p)) fun directory ↦ ?_
  split
  · exact .bind (.throw _) fun _ ↦ hremove
  · exact hremove

lemma keeps_removeIfPresent (h : ∀ cwd : Path, ¬Path.collapse (cwd.join p).parts <+: spot) :
    Keeps (Holds spot e) (removeIfPresent p) := by
  refine .bind (keeps_of_onlyTells (.isPresent p)) fun present ↦ ?_
  split
  · exact keeps_removeFile h
  · exact .pure _

lemma keeps_filterM {f : α → Command Bool} (h : ∀ x, Keeps (Holds spot e) (f x)) (xs : List α) :
    Keeps (Holds spot e) (xs.filterM f) := by
  have haux : ∀ kept, Keeps (Holds spot e) (xs.filterAuxM f kept) := by
    induction xs with
    | nil => exact fun kept ↦ .pure kept
    | cons x xs ih => exact fun kept ↦ .bind (h x) fun b ↦ ih _
  exact .bind (haux []) fun _ ↦ .pure _

lemma keeps_load (c : Build.Configuration) : Keeps (Holds spot e) c.load := by
  refine .bind (keeps_of_onlyTells (.attempt ?_)) fun loaded ↦ ?_
  · exact .bind (.readJson _) fun _ ↦ .bind (.readJson _) fun _ ↦
      .bind (.readJson _) fun _ ↦ .pure _
  · split
    · exact .pure _
    · exact keeps_say_exit _ _

lemma keeps_scan (rules root : Path) (pattern : String) :
    Keeps (Holds spot e) (Build.scan rules root pattern) := by
  refine .bind (keeps_of_onlyTells (Build.onlyTells_loadExclusions rules)) fun exclusions ↦ ?_
  exact .get_bind fun s hs ↦ Keeps.bind (keeps_filterM (fun p ↦ keeps_lift _) _)
    (fun _ ↦ .pure _) s hs

lemma keeps_chooseFiles (rules root : Path) (pattern : String) :
    Keeps (Holds spot e) (Build.chooseFiles rules root pattern) := by
  refine .bind (keeps_of_onlyTells (.isFile root)) fun single ↦ ?_
  split
  · exact .pure _
  · exact .bind (keeps_scan rules root pattern) fun _ ↦ .pure _

lemma keeps_chooseStylesheets (rules root : Path) :
    Keeps (Holds spot e) (Build.StyleGraph.chooseStylesheets rules root) := by
  refine .bind (keeps_of_onlyTells (.isFile root)) fun single ↦ ?_
  split
  · split
    all_goals exact .pure _
  · refine .bind (keeps_of_onlyTells (.inspect _ root)) fun directory ↦ ?_
    split
    · exact .bind (keeps_scan rules root _) fun _ ↦ .pure _
    · exact .pure _

lemma keeps_writeGraph (hout : out.IsPlace) (hnot : ¬spot <+: out.parts) (graph : Json) :
    Keeps (Holds spot e) (Build.writeGraph out graph) := by
  have habove : ¬spot <+: out.parent.parts := fun h ↦ hnot (h.trans ( List.dropLast_prefix _))
  have hne : spot ≠ out.parts := fun h ↦ hnot (h ▸ List.prefix_rfl)
  exact .bind (keeps_ensureDirectory hout.parent habove) fun _ ↦ keeps_writeText hout hne _

/-- A builder changes the file that it is to write and the directories above it. -/
lemma keeps_buildGraph (l : Build.Language) (c : Build.Configuration) (root : String)
    (hout : out.IsPlace) (hnot : ¬spot <+: out.parts) :
    Keeps (Holds spot e) (buildGraph l c root out.text) := by
  have hne : spot ≠ out.parts := fun h ↦ hnot (h ▸ List.prefix_rfl)
  have hresolve (p : Path) : Keeps (Holds spot e) (resolve p) := fun _ hs ↦ hs
  have hissue (s : Session) (hs : Holds spot e s) (n : Nat) : Holds spot e { s with issued := n } :=
    hs
  have hwrite (graph : Json) (line : String) : Keeps (Holds spot e)
      (do Build.writeGraph (Path.ofText out.text) graph; say line) := by
    rw [hout.ofText_text]
    exact .bind (keeps_writeGraph hout hnot _) fun _ ↦ keeps_say _
  cases l with
  | python =>
    refine .bind (hresolve _) fun _ ↦ .bind (keeps_load c) fun documents ↦ ?_
    refine .bind (keeps_lift _) fun _ ↦ .bind (keeps_chooseFiles _ _ _) fun chosen ↦ ?_
    refine .bind (keeps_say _) fun _ ↦ .get_bind fun s hs ↦ ?_
    exact Keeps.bind (.of_set (hissue s hs _)) (fun _ ↦ .bind (keeps_lift _) fun _ ↦
      .bind (keeps_lift _) fun _ ↦ .bind (keeps_lift _) fun _ ↦ hwrite _ _) s hs
  | html =>
    refine .bind (hresolve _) fun _ ↦ .bind (keeps_load c) fun documents ↦ ?_
    refine .bind (keeps_lift _) fun _ ↦ .bind (keeps_chooseFiles _ _ _) fun chosen ↦ ?_
    refine .bind (keeps_lift _) fun _ ↦ .bind (keeps_say _) fun _ ↦ .get_bind fun s hs ↦ ?_
    exact Keeps.bind (.of_set (hissue s hs _)) (fun _ ↦ .bind (keeps_lift _) fun _ ↦
      hwrite _ _) s hs
  | css =>
    refine .bind (hresolve _) fun _ ↦ .bind (keeps_load c) fun documents ↦ ?_
    refine .bind (keeps_lift _) fun _ ↦ .bind (keeps_lift _) fun _ ↦ ?_
    refine .bind (keeps_of_onlyTells (.isPresent _)) fun _ ↦ ?_
    refine .bind (keeps_of_onlyTells (.isFile _)) fun _ ↦ .bind (keeps_say _) fun _ ↦ ?_
    refine .bind (keeps_chooseStylesheets _ _) fun chosen ↦ ?_
    refine .bind (keeps_say _) fun _ ↦ .get_bind fun s hs ↦ ?_
    refine Keeps.bind (.of_set (hissue s hs _)) (fun _ ↦ .bind (keeps_lift _) fun _ ↦
      .bind (keeps_attempt (Build.writeNamed_text hout _ ▸ keeps_writeText hout hne _))
      fun written ↦ ?_) s hs
    split
    · exact keeps_say _
    · exact keeps_say_exit _ _

lemma keeps_orExit (h : Keeps (Holds spot e) c) (message : String) :
    Keeps (Holds spot e) (orExit message c) := by
  refine .bind (keeps_attempt h) fun r ↦ ?_
  split
  · exact .pure _
  · exact keeps_say_exit _ _

lemma keeps_checkGraph (tool : Path) (graph : String) (hout : out.IsPlace)
    (hne : spot ≠ out.parts) :
    Keeps (Holds spot e) (checkGraph tool graph (some out.text)) := by
  refine .bind (keeps_of_onlyTells (.isPresent _)) fun present ↦ keeps_unless_exit _ _ _ ?_
  refine .bind (keeps_say _) fun _ ↦ .bind (keeps_orExit (keeps_of_onlyTells ?_) _) fun schema ↦ ?_
  · exact .bind (.readJson _) fun _ ↦ .bind (.readJson _) fun _ ↦ .bind (.lift _) fun _ ↦ .pure _
  · refine .bind (keeps_orExit (keeps_of_onlyTells (.readJson _)) _) fun document ↦ ?_
    refine .bind (keeps_lift _) fun report ↦ ?_
    split
    · exact keeps_say _
    next hsome =>
      obtain rfl := Option.some.inj (Option.filter_eq_some_iff.1 hsome).1
      refine .bind (keeps_attempt (Build.writeNamed_text hout _ ▸ keeps_writeText hout hne _))
        fun written ↦ ?_
      split
      · exact keeps_say _
      · exact .bind (keeps_say _) fun _ ↦ keeps_say _

end CodeAtlas.Command
