import CodeAtlas.Proofs.DocumentLaws
import CodeAtlas.Proofs.Untouched

/-!
# When the graph of a project is written

The graph of a project is written at the end of a run, when every language of the profile has been
built and has passed the check. Up to there a run writes beside the graph only. So it holds the
merge of what was built, in the order of the profile, or what it held before the run.
-/

namespace CodeAtlas.Command

open List Stepwise

variable {paths : List Path} {n stem : String} {root fragment fragments : Path}
  {languages : List Json} {spot : List String}
variable {e : Option Entry} {l : Layout} {s t : Session}

/-! ## One language -/

def builderOf (l : Layout) (name : String) : Path :=
  ((l.tool.below "builders").below name).below s!"build_{name}_ast.py"

def checkerOf (l : Layout) : Path := l.tool.below "builders/validation/validate_builder_output.py"

def reportOf (l : Layout) (fragment : Path) :
    Path := l.runtime.below s!"report_{fragment.stem}.json"

/-- The builder of a language is there, ends well and leaves a graph. -/
structure Builds (l : Layout) (root fragments : Path) (name : String) (s : Session)
    (fragment : Path) (t : Session) : Prop where
  placed : fragment = fragments.below s!"fragment_{name}.json"
  installed : isPresent (builderOf l name) s = .ok true s
  ended : ∃ out err, startBuilder l (Build.Language.ofName? name)
    (builderOf l name) root.text fragment.text
    (said s s!"Running Builder: {name} -> {fragment.name}") = .ok ⟨0, out, err⟩ t
  written : isPresent fragment t = .ok true t

/-- Builders of further languages may write anything but the graph of the project. -/
def SparesGraph (l : Layout) : Prop :=
  ∀ name root tree, Tree.entry? (l.foreign (builderOf l name) root
    (l.fragments.below s!"fragment_{name}.json").text tree).2 l.graph.parts =
    tree.entry? l.graph.parts

/-- The check of a graph ends well and reports that the graph passes. -/
structure Passes (l : Layout) (fragment : Path) (s u : Session) (report : Json) (t : Session) :
    Prop where
  ended : ∃ out err, start l (checkerOf l) (checkGraph l.tool fragment.text
    (some (reportOf l fragment).text)) (said s s!"Validating fragment: {fragment.name}") =
      .ok ⟨0, out, err⟩ u
  read : readJson (reportOf l fragment) u = .ok report u
  status : report.get "status" = .ok (.str "pass")
  cleared : removeIfPresent (reportOf l fragment) u = .ok () t

lemma of_lift_eq_ok {α : Type} {x : Except Fault α} {a : α}
    (h : (liftM x : Command α) s = .ok a t) : x = .ok a ∧ t = s := lift_eq_ok.1 h

lemma eq_of_inspect {test : Tree → Path → Bool} {p : Path} {b : Bool}
    (h : inspect test p s = .ok b t) : t = s := (OnlyTells.inspect_eq_ok.1 h).2

def documentAt (s : Session) (p : Path) : Except Fault Json :=
  s.tree.text (s.cwd.join p) p.text >>= Json.parse

lemma readJson_eq (p : Path) (s : Session) :
    readJson p s = (liftM (documentAt s p) : Command Json) s := by
  have htext : readText p s = (liftM (s.tree.text (s.cwd.join p) p.text) : Command String) s := rfl
  rw [documentAt]
  cases h : s.tree.text (s.cwd.join p) p.text with
  | ok text =>
    rw [h] at htext
    rw [readJson, bind_of_ok htext]
    rfl
  | error f =>
    rw [h] at htext
    rw [readJson, bind_of_error htext]
    rfl

lemma attempt_readJson (p : Path) (s : Session) :
    attempt (readJson p) s = .ok (documentAt s p) s := by
  rw [attempt, readJson_eq]
  cases documentAt s p <;> rfl

lemma succeeded_eq_true_iff {words : List String} {ended : Ended} :
    succeeded words ended s = .ok true t ↔ ended.code = 0 ∧ t = s := by
  rw [succeeded]
  split
  next h => exact ⟨fun hrun ↦ by cases hrun; exact ⟨h, rfl⟩, fun hrun ↦ by rw [hrun.2]; rfl⟩
  next h => exact ⟨fun hrun ↦ (by cases hrun), fun hrun ↦ absurd hrun.1 h⟩

lemma runBuilder_eq_some_iff {language : Json} :
    runBuilder l language root fragments s = .ok (some fragment) t ↔
      ∃ name, language = .str name ∧ Builds l root fragments name s fragment t := by
  rw [runBuilder, lift_bind_eq_ok]
  cases language with
  | str name =>
    have hmissing (line : String) (u v : Session) :
        (do say line; return none : Command (Option Path)) u ≠ .ok (some fragment) v :=
        fun h ↦ by cases h
    have hfailed (u v : Session) :
      (return none : Command (Option Path)) u ≠ .ok (some fragment) v := fun h ↦ by cases h
    simp only [belowValue, Except.ok.injEq, exists_eq_left', Json.str.injEq,
      ↓unless_eq_ok (hmissing _), ↓unless_eq_ok hfailed, run_bind_eq_ok, succeeded_eq_true_iff]
    constructor
    · rintro ⟨u, hpresent, _, _, hsaid, ⟨_, out, err⟩, v, hstart, _, ⟨rfl, rfl⟩, w, hwritten, hend⟩
      obtain rfl := eq_of_inspect hpresent
      obtain rfl := eq_of_inspect hwritten
      cases hsaid
      cases hend
      exact ⟨rfl, hpresent, ⟨out, err, hstart⟩, hwritten⟩
    · rintro ⟨rfl, hpresent, ⟨out, err, hstart⟩, hwritten⟩
      exact ⟨s, hpresent, _, _, rfl, _, t, hstart, t, ⟨rfl, rfl⟩, t, hwritten, rfl⟩
  | _ => simp [belowValue]

lemma checkFragment_eq_true_iff :
    checkFragment l fragment s = .ok true t ↔ ∃ u report, Passes l fragment s u report t := by
  have hfailed (u v : Session) : (return false : Command Bool) u ≠ .ok true v := fun h ↦ by cases h
  rw [checkFragment, bind_of_ok (run_say _ s), ← checkerOf, ← reportOf]
  simp only [↓unless_eq_ok hfailed, run_bind_eq_ok, succeeded_eq_true_iff, attempt_readJson]
  constructor
  · rintro ⟨⟨_, out, err⟩, _, hstart, u, ⟨rfl, rfl⟩, read, v, hread, h⟩
    obtain ⟨hreport, rfl⟩ := EStateM.Result.ok.inj hread
    cases read with
    | error f => cases h
    | ok report =>
      obtain ⟨status, hstatus, h⟩ := lift_bind_eq_ok.1 h
      cases hpassed : status.same "pass" with
      | false =>
        rw [hpassed, if_pos (by decide), bind_of_ok (run_say _ u)] at h
        obtain ⟨_, v, -, h⟩ := run_bind_eq_ok.1 h
        cases h
      | true =>
        rw [hpassed] at h
        obtain ⟨_, v, hcleared, h⟩ := run_bind_eq_ok.1 h
        cases h
        refine ⟨u, report, ⟨out, err, hstart⟩, ?_, ?_, hcleared⟩
        · rw [readJson_eq, lift_eq_ok]
          exact ⟨hreport, rfl⟩
        · rw [hstatus, Json.same_str.1 hpassed]
  · rintro ⟨u, report, ⟨out, err, hstart⟩, hread, hstatus, hcleared⟩
    rw [readJson_eq, lift_eq_ok] at hread
    refine ⟨_, u, hstart, u, ⟨rfl, rfl⟩, _, u, rfl, ?_⟩
    rw [hread.1]
    refine lift_bind_eq_ok.2 ⟨_, hstatus, run_bind_eq_ok.2 ⟨_, t, hcleared, rfl⟩⟩

/-! ## All languages -/

/-- The graphs of languages are built and pass the check, one after the other. -/
inductive AllPass (l : Layout) (root fragments : Path) :
    List Json → Session → List Path → Session → Prop
  | nil (s : Session) : AllPass l root fragments [] s [] s
  | cons {name : String} {rest : List Json} {fragment : Path} {paths : List Path} {report : Json}
      {s t u v w : Session} (hbuilds : Builds l root fragments name s fragment t)
      (hpasses : Passes l fragment t u report v) (hrest : AllPass l root fragments rest v paths w) :
      AllPass l root fragments (.str name :: rest) s (fragment :: paths) w

lemma buildFragments_eq_ok_iff : buildFragments l root fragments languages s = .ok paths t ↔
      AllPass l root fragments languages s paths t := by
  constructor
  · intro h
    induction languages generalizing s paths with
    | nil =>
      cases h
      exact .nil _
    | cons language rest ih =>
      obtain ⟨fragment?, u, hbuilder, h₁⟩ := run_bind_eq_ok.1 h
      cases fragment? with
      | none => cases h₁
      | some fragment =>
        obtain ⟨passed, v, hcheck, h₂⟩ := run_bind_eq_ok.1 h₁
        cases passed with
        | false => cases h₂
        | true =>
          obtain ⟨others, w, hothers, h₃⟩ := run_bind_eq_ok.1 h₂
          cases h₃
          obtain ⟨name, rfl, hbuilds⟩ := runBuilder_eq_some_iff.1 hbuilder
          obtain ⟨x, report, hpasses⟩ := checkFragment_eq_true_iff.1 hcheck
          exact .cons hbuilds hpasses (ih hothers)
  · intro h
    induction h with
    | nil s => rfl
    | cons hbuilds hpasses _ ih =>
      rw [buildFragments, bind_of_ok (runBuilder_eq_some_iff.2 ⟨_, rfl, hbuilds⟩)]
      dsimp only
      rw [bind_of_ok (checkFragment_eq_true_iff.2 ⟨_, _, hpasses⟩), if_pos rfl, bind_of_ok ih]
      rfl

/-! ## What a run leaves alone -/

lemma keeps_succeeded (words : List String) (ended : Ended) :
    Keeps (Holds spot e) (succeeded words ended) := by
  rw [succeeded]
  split
  · exact .pure _
  · exact .bind (keeps_say _) fun _ ↦ .pure _

lemma keeps_findProject : Keeps (Holds spot e) (findProject l) := by
  refine .bind (keeps_of_onlyTells (.isPresent _)) fun present ↦ keeps_unless_exit _ _ _ ?_
  refine .bind (keeps_of_onlyTells (.readJson _)) fun profile ↦
    .bind (keeps_lift _) fun languages ↦ ?_
  refine .bind (keeps_lift _) fun named ↦ keeps_unless_exit _ _ _ ?_
  refine .bind (keeps_lift _) fun value ↦ .bind (keeps_lift _) fun raw ↦
    .bind (keeps_say _) fun _ ↦ ?_
  refine .bind (keeps_say _) fun _ ↦ .bind (keeps_say _) fun _ ↦ .bind (keeps_say _) fun _ ↦ ?_
  refine .bind (keeps_of_onlyTells (.isPresent _)) fun found ↦ keeps_unless_exit _ _ _ ?_
  exact .pure _

lemma report_ne (hn : n.toList.head? ≠ some 'r') : s!"report_{stem}.json" ≠ n := by
  rintro rfl
  apply hn
  simp [String.toList_append, toString]

lemma isName_report (h : '/' ∉ stem.toList) : IsName s!"report_{stem}.json" := by
  refine ⟨report_ne (by decide), report_ne (by decide), report_ne (by decide), ?_⟩
  simp [String.toList_append, toString, h]

section Frame

variable (hhome : l.home.IsPlace)
include hhome

lemma isPlace_runtime : l.runtime.IsPlace := by
  have hname : IsName "runtime" := ⟨by decide, by decide, by decide, by decide⟩
  rw [Layout.runtime, Path.below_of_isName hname]
  exact hhome.below hname

lemma isPlace_below_runtime (hn : IsName n) :
    (l.runtime.below n).IsPlace ∧ (l.runtime.below n).parts = l.runtime.parts ++ [n] := by
  rw [Path.below_of_isName hn]
  exact ⟨(isPlace_runtime hhome).below hn, rfl⟩

lemma isPlace_graph :
    l.graph.IsPlace ∧ l.graph.parts = l.runtime.parts ++ ["code_knowledge_graph_ast.json"] :=
  isPlace_below_runtime hhome ⟨by decide, by decide, by decide, by decide⟩

lemma isPlace_fragments :
    l.fragments.IsPlace ∧ l.fragments.parts = l.runtime.parts ++ ["builders_generated_fragments"] :=
  isPlace_below_runtime hhome ⟨by decide, by decide, by decide, by decide⟩

lemma graph_not_above (hn : n ≠ "code_knowledge_graph_ast.json") (rest : List String) :
    ¬l.graph.parts <+: l.runtime.parts ++ n :: rest := by
  rw [(isPlace_graph hhome).2, prefix_append_right_inj]
  intro h
  exact hn (cons_prefix_cons.1 h).1.symm

lemma graph_ne (hn : n ≠ "code_knowledge_graph_ast.json") :
    l.graph.parts ≠ l.runtime.parts ++ [n] := by
  intro h
  apply graph_not_above hhome hn []
  rw [h]

lemma not_above_graph (hn : n ≠ "code_knowledge_graph_ast.json") (rest : List String) :
    ¬l.runtime.parts ++ n :: rest <+: l.graph.parts := by
  rw [(isPlace_graph hhome).2, prefix_append_right_inj]
  intro h
  exact hn (cons_prefix_cons.1 h).1

lemma keeps_startBuilder (hspares : SparesGraph l) (name : String) (root : Path) :
    Keeps (Holds l.graph.parts e)
      (startBuilder l (Build.Language.ofName? name) (builderOf l name) root.text
        (l.fragments.below s!"fragment_{name}.json").text) := by
  cases hlanguage : Build.Language.ofName? name with
  | some language =>
    refine keeps_start _ _ ?_
    have hname : language.name = name := by
      simpa using find?_some hlanguage
    obtain ⟨hplace, hparts⟩ := isPlace_fragments hhome
    have hisName : IsName s!"fragment_{name}.json" := by
      rw [← hname]
      cases language <;> exact ⟨by decide, by decide, by decide, by decide⟩
    rw [Path.below_of_isName hisName]
    refine keeps_buildGraph language _ _ (hplace.below hisName) ?_
    rw [hparts, append_assoc]
    exact graph_not_above hhome (by decide) _
  | none => exact keeps_startForeign (hspares name root.text)

lemma keeps_runBuilder (hspares : SparesGraph l) (language : Json) (root : Path) :
    Keeps (Holds l.graph.parts e) (runBuilder l language root l.fragments) := by
  cases language with
  | str name =>
    refine .bind_of_run (keeps_lift _) fun place s t hplace ↦ ?_
    obtain rfl : (l.tool.below "builders").below name = place :=
      Except.ok.inj (of_lift_eq_ok hplace).1
    refine .bind (keeps_of_onlyTells (.isPresent _)) fun present ↦ ?_
    split
    · exact .bind (keeps_say _) fun _ ↦ .pure _
    · refine .bind (keeps_say _) fun _ ↦ ?_
      refine .bind (keeps_startBuilder hhome hspares name root) fun ended ↦ ?_
      refine .bind (keeps_succeeded _ ended) fun fine ↦ ?_
      split
      · exact .pure _
      · refine .bind (keeps_of_onlyTells (.isPresent _)) fun written ↦ ?_
        split
        · exact .bind (keeps_say _) fun _ ↦ .pure _
        · exact .pure _
  | _ => exact .throw _

lemma keeps_checkFragment (hfragment : '/' ∉ fragment.stem.toList) :
    Keeps (Holds l.graph.parts e) (checkFragment l fragment) := by
  have hne : s!"report_{fragment.stem}.json" ≠ "code_knowledge_graph_ast.json" :=
    report_ne (by decide)
  obtain ⟨hplace, hparts⟩ := isPlace_below_runtime hhome (isName_report hfragment)
  have hgraph : l.graph.parts ≠ (l.runtime.below s!"report_{fragment.stem}.json").parts := by
    rw [hparts]
    exact graph_ne hhome hne
  have hremove (cwd : Path) : ¬Path.collapse
      (cwd.join (l.runtime.below s!"report_{fragment.stem}.json")).parts <+: l.graph.parts := by
    rw [hplace.join, hplace.collapse, hparts]
    exact not_above_graph hhome hne []
  refine .bind (keeps_say _) fun _ ↦ ?_
  refine .bind (keeps_start _ _ (keeps_checkGraph _ _ hplace hgraph)) fun ended ↦ ?_
  refine .bind (keeps_succeeded _ ended) fun fine ↦ ?_
  split
  · exact .pure _
  · refine .bind (keeps_of_onlyTells (.attempt (.readJson _))) fun read ↦ ?_
    split
    · exact .bind (keeps_say _) fun _ ↦ .pure _
    · refine .bind (keeps_lift _) fun status ↦ ?_
      dsimp only
      split
      · exact .bind (keeps_say _) fun _ ↦ .bind (keeps_removeIfPresent hremove) fun _ ↦ .pure _
      · exact .bind (keeps_removeIfPresent hremove) fun _ ↦ .pure _

lemma keeps_buildFragments (hspares : SparesGraph l) (root : Path) (languages : List Json) :
    Keeps (Holds l.graph.parts e) (buildFragments l root l.fragments languages) := by
  induction languages with
  | nil => exact .pure _
  | cons language rest ih =>
    refine .bind_of_run (keeps_runBuilder hhome hspares language root) fun built s t hbuilt ↦ ?_
    cases built with
    | none => exact keeps_say_exit _ _
    | some fragment =>
      obtain ⟨name, -, hbuilds⟩ := runBuilder_eq_some_iff.1 hbuilt
      -- a language may have any name, so only the last name of the path tells where the report goes
      have hstem : '/' ∉ fragment.stem.toList := by
        rw [hbuilds.placed]
        exact Path.slash_notMem_stem (Path.slash_notMem_below
          (fun n hn ↦ ((isPlace_fragments hhome).1.names n hn).slash) _)
      refine .bind (keeps_checkFragment hhome hstem) fun passed ↦ ?_
      split
      · exact .bind ih fun _ ↦ .pure _
      · exact keeps_say_exit _ _

lemma keeps_clearFragments : Keeps (Holds l.graph.parts e) (clearFragments l.fragments) := by
  refine .get_bind fun s hs ↦ Keeps.bind ((Keeps.composes _).forIn (fun p hp _ ↦ ?_) _)
    (fun _ ↦ .pure _) s hs
  split
  next hmatches =>
    refine .bind (keeps_removeFile fun cwd ↦ ?_) fun _ ↦ .pure _
    obtain ⟨hplace, hparts⟩ := isPlace_fragments hhome
    obtain ⟨n, rfl⟩ := Tree.exists_of_mem_children hp
    -- nothing is known of a name in a tree, but two dots do not fit the pattern
    have hn : n ≠ ".." := by
      rintro rfl
      rw [Build.name_below l.fragments (cons_ne_nil _ _)] at hmatches
      exact absurd hmatches (by decide)
    have hdots : ∀ m ∈ l.fragments.parts ++ [n], m ≠ ".." := by
      intro m hm
      rcases mem_append.1 hm with hm | hm
      · exact (hplace.names m hm).ne_dots
      · exact mem_singleton.1 hm ▸ hn
    rw [Path.join, if_pos (by simp [Path.isAbsolute, hplace.root]),
      Path.collapse_of_no_dots hdots, hparts, append_assoc]
    exact not_above_graph hhome (by decide) _
  next => exact .pure _

lemma keeps_emptyFragments : Keeps (Holds l.graph.parts e) (emptyFragments l) := by
  obtain ⟨hplace, hparts⟩ := isPlace_fragments hhome
  have hruntime : l.graph.parts ≠ l.runtime.parts := by
    rw [(isPlace_graph hhome).2]
    simp
  have hfragments : l.graph.parts ≠ l.fragments.parts := by
    rw [hparts]
    exact graph_ne hhome (by decide)
  refine .bind (keeps_makeDirectory (isPlace_runtime hhome) hruntime) fun _ ↦ ?_
  exact .bind (keeps_makeDirectory hplace hfragments) fun _ ↦ keeps_clearFragments hhome

lemma keeps_buildAll (hspares : SparesGraph l) : Keeps (Holds l.graph.parts e) (buildAll l) := by
  refine .bind keeps_findProject fun project ↦ ?_
  refine .bind (keeps_emptyFragments hhome) fun _ ↦ .bind (keeps_lift _) fun languages ↦ ?_
  exact keeps_buildFragments hhome hspares _ _

end Frame

/-! ## The merge -/

def fragmentsAt (s : Session) (paths : List Path) : List Graph.Fragment :=
  paths.map fun p ↦ ⟨p.name, documentAt s p⟩

lemma fragmentsAt_said (s : Session) (line : String) (paths : List Path) :
    fragmentsAt (said s line) paths = fragmentsAt s paths := rfl

lemma readFragments_eq (paths : List Path) (s : Session) :
    readFragments paths s = .ok (fragmentsAt s paths) s := by
  rw [readFragments, fragmentsAt]
  induction paths with
  | nil => rfl
  | cons p rest ih =>
    have hread : (do return ⟨p.name, ← attempt (readJson p)⟩ : Command Graph.Fragment) s =
        .ok ⟨p.name, documentAt s p⟩ s := by
      rw [bind_of_ok (attempt_readJson p s)]
      rfl
    rw [mapM_cons, bind_of_ok hread, bind_of_ok ih]
    rfl

/-- The session after the graph has been written. -/
def merged (l : Layout) (s : Session) (tree : Tree) : Session :=
  said { said s "Merging and Normalizing AST Fragments..." with tree }
    s!"Final Merged AST saved to: {l.graph.text}"

lemma mergeFragments_eq_ok_iff (hhome : l.home.IsPlace) :
    mergeFragments l paths s = .ok () t ↔
    ∃ graph tree, Graph.merge (fragmentsAt s paths) = .ok graph ∧
      s.tree.write l.graph l.graph.text graph.pretty.toUTF8 = .ok tree ∧ t = merged l s tree := by
  have hwrite (u v : Session) (graph : Json) : writeJson l.graph graph u = .ok () v ↔
      ∃ tree, u.tree.write l.graph l.graph.text graph.pretty.toUTF8 = .ok tree ∧
        v = { u with tree } := by
    rw [writeJson, writeText, bind_of_ok (run_get u),
      bind_of_ok (Build.absolute_of_isPlace (isPlace_graph hhome).1 u), lift_bind_eq_ok]
    exact exists_congr fun tree ↦ and_congr_right fun _ ↦
      ⟨fun h ↦ (EStateM.Result.ok.inj h).2.symm, fun h ↦ h ▸ rfl⟩
  rw [mergeFragments, bind_of_ok (run_say _ s), bind_of_ok (readFragments_eq paths _),
    fragmentsAt_said, lift_bind_eq_ok]
  simp only [run_bind_eq_ok, hwrite]
  constructor
  · rintro ⟨graph, hgraph, _, _, ⟨tree, htree, rfl⟩, hsaid⟩
    exact ⟨graph, tree, hgraph, htree, (EStateM.Result.ok.inj hsaid).2.symm⟩
  · rintro ⟨graph, tree, hgraph, htree, rfl⟩
    exact ⟨graph, hgraph, (), _, ⟨tree, htree, rfl⟩, rfl⟩

lemma failsSafely_mergeFragments (l : Layout) (paths : List Path) :
    FailsSafely (mergeFragments l paths) [] := by
  have hread (p : Path) :
    OnlyTells (do return ⟨p.name, ← attempt (readJson p)⟩ : Command Graph.Fragment) :=
    .bind (.attempt (.readJson p)) fun _ ↦ .pure _
  refine OnlyTells.bind_failsSafely (.say _) fun _ ↦ OnlyTells.bind_failsSafely
    (.mapM fun p _ ↦ hread p) ?_
  refine fun fragments ↦ OnlyTells.bind_failsSafely (.lift _) fun graph ↦ ?_
  exact FailsSafely.bind (failsSafely_writeText _ _) fun _ s ↦ ⟨_, _, rfl⟩

/-! ## The whole run -/

/-- The languages of the profile, and the files in which their graphs are built. -/
def Prepares (l : Layout) (s : Session) (languages : List Json) (root : Path) (t : Session) :
    Prop :=
  ∃ profile listed u, readJson l.profile s = .ok profile s ∧
    profile.getD "languages" (.arr []) = .ok listed ∧ listed.elements = .ok languages ∧
    findProject l s = .ok (listed, root) u ∧ emptyFragments l u = .ok () t

lemma languages_of_findProject {listed : Json}
    (h : findProject l s = .ok (listed, root) t) : ∃ profile, readJson l.profile s = .ok profile s ∧
      profile.getD "languages" (.arr []) = .ok listed := by
  have hexit (line : String) (f : PUnit → Command (Json × Path)) (u v : Session) :
      (do say line; (exit 1 : Command PUnit) >>= f) u ≠ .ok (listed, root) v := fun h ↦ by cases h
  dsimp only [findProject] at h
  simp only [↓unless_eq_ok (hexit _ _), ↓lift_bind_eq_ok, run_bind_eq_ok] at h
  obtain ⟨u, hpresent, profile, v, hread, found, hfound, _, -, _, -, _, -, _, _, -, _, _, -, _,
    _, -, _, _, -, _, -, hend⟩ := h
  obtain rfl := eq_of_inspect hpresent
  cases hend
  rw [readJson_eq, lift_eq_ok] at hread
  exact ⟨profile, by rw [readJson_eq, hread.1]; rfl, hfound⟩

lemma buildAll_eq_ok_iff : buildAll l s = .ok paths t ↔
    ∃ languages root u, Prepares l s languages root u ∧
      AllPass l root l.fragments languages u paths t := by
  simp only [buildAll, ↓lift_bind_eq_ok, run_bind_eq_ok, buildFragments_eq_ok_iff]
  constructor
  · rintro ⟨⟨listed, root⟩, u, hproject, _, v, hempty, languages, hlanguages, hpass⟩
    obtain ⟨profile, hread, hfound⟩ := languages_of_findProject hproject
    exact ⟨languages, root, v, ⟨profile, listed, u, hread, hfound, hlanguages, hproject, hempty⟩,
      hpass⟩
  · rintro ⟨languages, root, u, ⟨profile, listed, v, -, -, hlanguages, hproject, hempty⟩, hpass⟩
    exact ⟨(listed, root), v, hproject, (), u, hempty, languages, hlanguages, hpass⟩

lemma AllPass.isEmpty_iff
    (h : AllPass l root fragments languages s paths t) : paths.isEmpty = true ↔ languages = [] := by
  cases h <;> simp

/-- What a run that comes to its end leaves as the graph of the project. -/
def graphAfter? (l : Layout) : EStateM.Result Stop Session Unit → Option Entry
  | .ok _ t => Tree.entry? t.tree l.graph.parts
  | .error _ _ => none

/-- An installation whose further builders find one file each. -/
def polyglotLayout : Layout where
  root := ⟨"/", []⟩
  home := ⟨"/", ["s"]⟩
  tool := ⟨"/", ["s"]⟩
  adapters := ⟨"/", ["s"]⟩
  interpreter := ""
  foreign _ _ out t :=
    let name := (Path.ofText out).name
    (⟨0, "", ""⟩, t.set ["s", "runtime", "builders_generated_fragments", name] (.file
      ("\x7b\"nodes\":[\x7b\"name\":\"" ++ name ++ "\",\"type\":\"File\"\x7d]\x7d").toUTF8))

/-- A project in two further languages that has no graph yet. -/
def polyglot : Session where
  tree := ⟨[(["s"], .directory), (["s", "project"], .directory), (["s", "project", "profile.json"],
      .file "\x7b\"languages\":[\"go\",\"c\"],\"project_root\":\"/\"\x7d".toUTF8),
    (["s", "builders"], .directory), (["s", "builders", "go"], .directory),
    (["s", "builders", "go", "build_go_ast.py"], .file "".toUTF8),
    (["s", "builders", "c"], .directory),
    (["s", "builders", "c", "build_c_ast.py"], .file "".toUTF8),
    (["s", "builders", "validation"], .directory),
    (["s", "builders", "validation", "validate_builder_output.py"], .file "".toUTF8),
    (["s", "core"], .directory), (["s", "core", "software_schema"], .directory),
    (["s", "core", "software_schema", "nodes.json"], .file "\x7b\"File\":0\x7d".toUTF8),
    (["s", "core", "software_schema", "edges.json"], .file "\x7b\x7d".toUTF8),
    (["s", "runtime"], .directory)]⟩
  cwd := ⟨"/", []⟩
  now := ""

end CodeAtlas.Command
