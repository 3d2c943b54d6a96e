import CodeAtlas.Command.Program
import CodeAtlas.Proofs.Assembly

/-!
# Languages of a valid profile

A profile is valid if each language that has a name is the name of a directory of builders. The
build of a language looks for a program in that directory, which is named for the language as well.
So a language of a valid profile is missed just if there is no such program, and any other directory
among the builders passes for a language: of the shipped ones, the tests and the validation.
-/

namespace CodeAtlas.Command

open List Stepwise Json

variable {α : Type} {c : Command α} {a : α} {l : Layout} {s t : Session}
  {root fragments program : Path}
variable {name : String} {names : List String} {profile : Json}

/-! ## What a build prints -/

/-- A command that only looks and prints leaves what has been printed before. -/
lemma OnlyTells.exists_printed (h : OnlyTells c) (hrun : c s = .ok a t) :
    ∃ text, t.printed = s.printed ++ text := by
  obtain ⟨answer, hanswer⟩ := h
  rw [hanswer s] at hrun
  revert hrun
  obtain ⟨text, f | b⟩ := answer s.tree s.cwd
  · intro hrun
    cases hrun
  · intro hrun
    cases hrun
    exact ⟨text, rfl⟩

lemma printed_start {body : Command Unit} {e : Ended} (h : start l program body s = .ok e t) :
    t.printed = s.printed := by
  obtain ⟨installed, u, hinstalled, h⟩ := run_bind_eq_ok.1 h
  obtain rfl := eq_of_inspect hinstalled
  cases installed with
  | false =>
    cases h
    rfl
  | true =>
    rw [if_pos rfl] at h
    obtain ⟨ended, v, hbody, h⟩ := run_bind_eq_ok.1 h
    have hv : v.printed = u.printed := by
      rw [apart] at hbody
      split at hbody <;> cases hbody <;> rfl
    rw [← hv]
    revert h
    split <;> (intro h; cases h; rfl)

lemma printed_startBuilder {language? : Option Build.Language} {sourceRoot out : String} {e : Ended}
    (h : startBuilder l language? program sourceRoot out s = .ok e t) : t.printed = s.printed := by
  cases language? with
  | some language => exact printed_start h
  | none =>
    obtain ⟨installed, u, hinstalled, h⟩ := run_bind_eq_ok.1 h
    obtain rfl := eq_of_inspect hinstalled
    cases installed <;> (cases h; rfl)

lemma OnlyTells.succeeded (words : List String) (e : Ended) : OnlyTells (succeeded words e) := by
  rw [Command.succeeded]
  split
  · exact pure true
  · exact bind (say _) fun _ ↦ pure false

/-- The builder of a language is not found: there is a warning, and nothing else happens. -/
def Misses (l : Layout) (root fragments : Path) (name : String) (s : Session) : Prop :=
  runBuilder l (.str name) root fragments s =
    .ok none (said s s!"Warning: Builder for {name} not found at {(builderOf l name).text}")

lemma misses_iff : Misses l root fragments name s ↔ isPresent (builderOf l name) s =
    .ok false s := by
  have hplace : (liftM (belowValue (l.tool.below "builders") (.str name)) : Command Path) s =
      .ok ((l.tool.below "builders").below name) s := rfl
  rw [Misses, runBuilder, bind_of_ok hplace]
  dsimp only [display]
  rw [← builderOf]
  constructor
  · intro h
    obtain ⟨present, u, hpresent, h⟩ := run_bind_eq_ok.1 h
    obtain rfl := eq_of_inspect hpresent
    cases present with
    | false => exact hpresent
    | true =>
      rw [if_neg (by decide), bind_of_ok (run_say _ u)] at h
      obtain ⟨ended, v, hstart, hrest⟩ := run_bind_eq_ok.1 h
      -- What comes after the start is printed behind the line that announces it.
      obtain ⟨text, htext⟩ := OnlyTells.exists_printed (.bind (.succeeded _ _) fun fine ↦ by
        split
        · exact .pure none
        · refine .bind (.isPresent _) fun written ↦ ?_
          split
          · exact .bind (.say _) fun _ ↦ .pure none
          · exact .pure _) hrest
      rw [printed_startBuilder hstart] at htext
      have hlists := congrArg String.toList htext
      simp only [String.toList_append, append_assoc, append_cancel_left_eq] at hlists
      exact absurd (show 'W' :: _ = 'R' :: _ from hlists) (by simp)
  · intro hpresent
    rw [bind_of_ok hpresent]
    rfl

/-! ## What a check of the profile looks at -/

lemma forall_of_filterAuxM {p : Json → Command Bool} (hp : ∀ x s b t, p x s = .ok b t → t = s)
    {xs acc : List Json} (h : filterAuxM p xs acc s = .ok [] t) :
    acc = [] ∧ ∀ x ∈ xs, p x s = .ok false s := by
  induction xs generalizing acc with
  | nil =>
    cases h
    exact ⟨rfl, forall_mem_nil _⟩
  | cons x xs ih =>
    obtain ⟨b, u, hb, hrest⟩ := run_bind_eq_ok.1 h
    obtain rfl := hp x s b u hb
    obtain ⟨hacc, hall⟩ := ih hrest
    cases b with
    | true => cases hacc
    | false => exact ⟨hacc, forall_mem_cons.2 ⟨hb, hall⟩⟩

lemma of_not_isDirectory {directory : Path} {x : Json} {b : Bool}
    (h : (do return !(← isDirectory (← belowValue directory x)) : Command Bool) s = .ok b t) :
    t = s ∧ ∃ name, x = .str name ∧ isDirectory (directory.below name) s = .ok (!b) s := by
  obtain ⟨place, u, hplace, hrest⟩ := run_bind_eq_ok.1 h
  cases x with
  | str name =>
    cases hplace
    obtain ⟨found, v, hfound, hnot⟩ := run_bind_eq_ok.1 hrest
    obtain rfl := eq_of_inspect hfound
    cases hnot
    exact ⟨rfl, name, rfl, by rw [hfound, Bool.not_not]⟩
  | _ => cases hplace

lemma isDirectory_of_missingTools {directory : Path} {complaint : String → String}
    (h : missingTools directory (names.map str) complaint s = .ok [] t) :
    ∀ name ∈ names, name ≠ "" → isDirectory (directory.below name) s = .ok true s := by
  obtain ⟨wrong, u, hfilter, hwrong⟩ := run_bind_eq_ok.1 h
  obtain rfl := map_eq_nil_iff.1 (EStateM.Result.ok.inj hwrong).1
  obtain ⟨found, v, hfound, hreverse⟩ := run_bind_eq_ok.1 hfilter
  obtain rfl := reverse_eq_nil_iff.1 (EStateM.Result.ok.inj hreverse).1
  obtain ⟨-, hall⟩ := forall_of_filterAuxM (fun _ _ _ _ hx ↦ (of_not_isDirectory hx).1) hfound
  intro name hname hne
  have hmem : str name ∈ (names.map str).filter truthy :=
    mem_filter.2 ⟨mem_map_of_mem hname, by simpa [truthy] using hne⟩
  obtain ⟨-, _, heq, hdirectory⟩ := of_not_isDirectory (hall _ hmem)
  cases heq
  exact hdirectory

lemma isDirectory_of_checkProfile (hprofile : documentAt s l.profile = .ok profile)
    (hnames : profile.getD "languages" (.arr []) = .ok (.arr (names.map str)))
    (h : checkProfile l s = .ok () t) :
    ∀ name ∈ names, name ≠ "" → isDirectory ((l.tool.below "builders").below name) s =
      .ok true s := by
  have hread : orExit "Error parsing profile: " (readJson l.profile) s = .ok profile s := by
    rw [orExit, bind_of_ok (attempt_readJson _ s), hprofile]
    rfl
  have hexit (line : String) (f : PUnit → Command Unit) (u v : Session) :
      (do say line; (exit 1 : Command PUnit) >>= f) u ≠ .ok () v := fun h ↦ by cases h
  dsimp only [checkProfile] at h
  simp only [↓unless_eq_ok (hexit _ _), ↓lift_bind_eq_ok, run_bind_eq_ok] at h
  obtain ⟨u, hpresent, _, _, hdocument, _, hlisted, _, hlanguages, wrong, _, hwrong, _, -, _,
    -, _, _, -, h⟩ := h
  obtain rfl := eq_of_inspect hpresent
  cases hread.symm.trans hdocument
  cases hnames.symm.trans hlisted
  cases hlanguages
  cases wrong with
  | nil => exact isDirectory_of_missingTools hwrong
  | cons complaint rest =>
    -- A complaint ends the check with an exit code.
    obtain ⟨_, _, -, h⟩ := run_bind_eq_ok.1 h
    obtain ⟨_, _, -, h⟩ := run_bind_eq_ok.1 h
    cases h

def shelves : List String := ["python", "html", "css", "tests", "validation"]

/-- The builders are the shipped ones: no directory was added, and no program added or removed. -/
structure AsShipped (l : Layout) (s : Session) : Prop where
  shelved : ∀ name, IsName name →
    Gives (isDirectory ((l.tool.below "builders").below name)) s true → name ∈ shelves
  programs : ∀ name ∈ shelves,
    Gives (isPresent (builderOf l name)) s (name != "tests" && name != "validation")

/-- In a valid profile each language that has a name is a directory of builders. Its builder is
missed, whenever and wherever something is built, just if the program for the language is not there
then. Among the shipped builders these are the tests and the validation. -/
theorem valid_language_missed_iff (hprofile : Gives (readJson l.profile) s profile)
    (hnames : profile.getD "languages" (.arr []) = .ok (.arr (names.map str)))
    (hvalid : Gives (checkProfile l) s ()) : ∀ name ∈ names,
      (name ≠ "" → isDirectory ((l.tool.below "builders").below name) s = .ok true s) ∧
      (∀ root fragments t, Misses l root fragments name t ↔ isPresent (builderOf l name) t =
        .ok false t) ∧
      (AsShipped l s → IsName name → ∀ root fragments,
        Misses l root fragments name s ↔ name = "tests" ∨ name = "validation") := by
  obtain ⟨_, hread⟩ := hprofile
  rw [readJson_eq] at hread
  obtain ⟨_, hvalid⟩ := hvalid
  have hdirectories := isDirectory_of_checkProfile (of_lift_eq_ok hread).1 hnames hvalid
  refine fun name hname ↦ ⟨hdirectories name hname, fun _ _ _ ↦ misses_iff, ?_⟩
  intro hshipped hplain root fragments
  have hshelf := hshipped.shelved name hplain ⟨_, hdirectories name hname hplain.ne_empty⟩
  obtain ⟨_, hprogram⟩ := hshipped.programs name hshelf
  rw [misses_iff, hprogram, eq_of_inspect hprogram]
  simp [or_iff_not_imp_left]

/-- A project in one language, with the shipped builders. -/
def declared (language : String) : Session where
  tree := ⟨(["s"], .directory) :: (["s", "builders"], .directory) ::
    shelves.map (fun name ↦ (["s", "builders", name], .directory)) ++
    (shelves.take 3).map (fun name ↦
      (["s", "builders", name, s!"build_{name}_ast.py"], .file "".toUTF8)) ++
    [(["s", "project"], .directory), (["s", "project", "profile.json"],
      .file ("\x7b\"languages\":[\"" ++ language ++ "\"]\x7d").toUTF8)]⟩
  cwd := ⟨"/", []⟩
  now := ""

lemma asShipped_declared : AsShipped polyglotLayout (declared "python") := by
  refine ⟨fun name hname hdirectory ↦ ?_, by decide +kernel⟩
  have hplace : (polyglotLayout.tool.below "builders").below name =
      ⟨"/", ["s", "builders", name]⟩ := Path.below_of_isName hname
  obtain ⟨_, hdirectory⟩ := hdirectory
  have hseen := (OnlyTells.inspect_eq_ok.1 hdirectory).1
  rw [hplace, OnlyTells.seen] at hseen
  split at hseen
  · cases hseen
  · obtain ⟨spot, hlocate, hentry⟩ := Tree.locate_of_isDirectory (Except.ok.inj hseen)
    have hdots : ∀ n ∈ ["s", "builders", name], n ≠ ".." := by simp [hname.ne_dots]
    obtain rfl : spot = ["s", "builders", name] :=
      (Tree.locate_eq hlocate).trans (Path.collapse_of_no_dots hdots)
    have hmem : (["s", "builders", name], Entry.directory) ∈ (declared "python").tree.entries :=
      Table.mem_of_get? hentry
    simpa [declared, shelves] using hmem

theorem valid_language_missed_iff_python :
    AsShipped polyglotLayout (declared "python") ∧
    isDirectory ((polyglotLayout.tool.below "builders").below "python") (declared "python") =
      .ok true (declared "python") ∧
    ¬Misses polyglotLayout ⟨"/", []⟩ polyglotLayout.fragments "python" (declared "python") := by
  have hprofile : Gives (readJson polyglotLayout.profile) (declared "python")
      (.obj [("languages", .arr ["python"])]) := by decide +kernel
  have hvalid : Gives (checkProfile polyglotLayout) (declared "python") () := by decide +kernel
  have hnames : (obj [("languages", .arr ["python"])]).getD "languages" (.arr []) =
      .ok (.arr (["python"].map str)) := rfl
  obtain ⟨hdirectory, -, hmissed⟩ :=
    valid_language_missed_iff hprofile hnames hvalid "python" (by simp)
  have hplain : IsName "python" := ⟨by decide, by decide, by decide, by decide⟩
  refine ⟨asShipped_declared, hdirectory (by decide), fun h ↦ ?_⟩
  exact absurd ((hmissed asShipped_declared hplain _ _).1 h) (by decide)

/-- A directory that holds no builder passes for a language. -/
theorem valid_language_missed :
    Gives (checkProfile polyglotLayout) (declared "validation") () ∧
    Misses polyglotLayout ⟨"/", []⟩ polyglotLayout.fragments "validation"
    (declared "validation") := by
  refine ⟨by decide +kernel, misses_iff.2 ?_⟩
  have habsent : Gives (isPresent (builderOf polyglotLayout "validation"))
      (declared "validation") false := by
    decide +kernel
  obtain ⟨t, ht⟩ := habsent
  rwa [eq_of_inspect ht] at ht

end CodeAtlas.Command
