import CodeAtlas.Proofs.CallRecords

/-!
# Which calls are recorded

A source that can be read is walked through twice. Where both walks come to their end, which they do
unless the source nests too deep or holds a number that is too long to be written, the second one
records the calls that stand outside of assignments, each once, and no others. Only calls in a
function right inside a function are left open: they are recorded if a definition of the same id is
registered.
-/

namespace CodeAtlas.Build

open Fallible Stepwise Definitions Script References List
open Script (Node Form)

variable {n : Node} {source : Source} {text : String}

def filePlace (source : Source) : Place := { scope := fileId source.name }

lemma exists_of_reader_bind {α β : Type} {first : Script.Reader α} {next : α → Script.Reader β}
    {stream : Stream} {r : β × Stream} (h : (first >>= next) stream = some r) :
    ∃ a rest, next a rest = some r := by
  change Script.Reader.bind first next stream = some r at h
  rw [Script.Reader.bind] at h
  split at h
  next a rest _ => exact ⟨a, rest, h⟩
  next => cases h

lemma form_of_tree? (h : tree? text = some n) : n.form = .module := by
  rw [tree?] at h
  split at h
  next => cases h
  next ts _ =>
    obtain ⟨⟨m, rest⟩, hread, rfl⟩ := Option.map_eq_some_iff.1 h
    obtain ⟨_, _, hread⟩ := exists_of_reader_bind hread
    dsimp only at hread
    split at hread
    all_goals
      obtain ⟨_, _, hread⟩ := exists_of_reader_bind hread
      obtain ⟨_, _, hread⟩ := exists_of_reader_bind hread
      cases hread
      rfl

lemma form_of_tree (h : source.tree = .ok (text, n)) : n.form = .module := by
  obtain ⟨text', -, h⟩ := bind_eq_ok.1 h
  obtain ⟨n', hn', h⟩ := bind_eq_ok.1 h
  cases h
  rw [parse] at hn'
  split at hn'
  next tree htree =>
    split at hn'
    · cases hn'
    · cases hn'
      exact form_of_tree? htree
  next => cases hn'

lemma callPlaces_of_module (p : Place) (h : n.form = .module) :
    callPlaces p n = callPlacesAll p n.children := by
  obtain ⟨form, span, children⟩ := n
  obtain rfl : form = .module := h
  rfl

lemma Survey.walk_of_ok {step : Surveying Unit} {s u : Survey} (h : step s = .ok () u)
    (word : String) (source : Source) : s.walk word source step = u := by
  rw [walk, h]

namespace Definitions

variable {ids : List String} {s : Survey}

lemma ends_visitFile (source : Source) (text : String) (n : Node) (hs : s.Within (Filed ids)) :
    Ends (Passable 0 n) (visitFile scriptSetup source text n) s
      fun _ _ ↦ Safe (fileSteps scriptSetup source text n) := by
  obtain ⟨u, -, hrun⟩ := exists_runAll ready_scriptSetup (arises_file scriptSetup source text n) hs
  rw [visitFile]
  rcases hrun with ⟨hsafe, hrun⟩ | ⟨hfails, f, hrun⟩
  · exact ⟨fun _ _ _ ↦ hsafe, fun _ ↦ ⟨(), u, hrun⟩⟩
  · refine ⟨fun _ _ hu ↦ ?_, fun h ↦ (hfails ?_).elim⟩
    · rw [hrun] at hu
      cases hu
    · obtain ⟨form, span, children⟩ := n
      exact safe_cons.2 ⟨rfl, safe_stepsAll _ 3 children (h.child (show 3 ≤ 4 by omega))⟩

/-- The definitions around calls are registered, except where one is skipped. -/
def Settled (places : List Place) (s : Survey) : Prop :=
  ∀ q ∈ places, q.skipped = false → q.assigned = false → Has q.within s

lemma has_foldl_addDefinitions (setup : Setup) (sources : List Source) (hs : Has ids s) :
    Has ids (sources.foldl (Survey.addDefinitions setup) s) := by
  refine foldlRecOn sources _ hs fun _ hs source _ ↦ ?_
  exact addDefinitions_of_steps (fun _ _ _ ↦ trivial) (fun _ _ hs ↦ hs) trivial hs fun _ _ _ ↦
    keeps_has_step

end Definitions

namespace References

variable {known : List String} {survey : Survey}

lemma exists_fileScope (hregistry : Registered known survey.registry)
    (hfile : fileId source.name ∈ survey.registry.keys) :
    ∃ scope, scopeOf survey (fileId source.name) = .ok scope ∧
      Proven survey.registry ⟨survey, [scope]⟩ ∧ scope.id = fileId source.name := by
  obtain ⟨scope, hscope⟩ := exists_scopeOf hregistry rfl (fileId source.name)
  obtain ⟨hground, hid⟩ := grounded_scopeOf hfile hscope
  exact ⟨scope, hscope, ⟨rfl, forall_mem_singleton.2 hground⟩, hid⟩

lemma visitFile_eq_ok {scope : Scope Binding} (h : scopeOf survey (fileId source.name) = .ok scope)
    {setup : Setup} {u : Survey} : visitFile setup source n survey = .ok () u ↔
      ∃ s, visit setup source.name 0 n ⟨survey, [scope]⟩ = .ok () s ∧ s.survey = u := by
  rw [visitFile, h]
  cases hvisit : visit setup source.name 0 n ⟨survey, [scope]⟩ <;> simp [hvisit]

lemma ends_visitFile (hregistry : Registered known survey.registry)
    (hfile : fileId source.name ∈ survey.registry.keys) (n : Node) :
    Ends (Passable 0 n) (visitFile scriptSetup source n) survey fun _ u ↦ callRecords u.draft =
        callRecords survey.draft + recordsAt survey.registry (callPlaces (filePlace source) n) := by
  obtain ⟨scope, hscope, hstart, hid⟩ := exists_fileScope hregistry hfile
  refine ⟨fun _ u hrun ↦ ?_, fun hpassable ↦ ?_⟩
  · obtain ⟨s, hs, rfl⟩ := (visitFile_eq_ok hscope).1 hrun
    exact Task.notes_run hregistry source.name (.node 0 n) rfl trivial trivial
      (filePlace source) _ s rfl hstart (congrArg some hid) hs
  · have hnode : (Task.node 0 n).Passable :=
      ⟨by rintro _ _ ⟨⟩; exact hpassable, by simp [Task.shown?]⟩
    obtain ⟨s, hs⟩ := Task.exists_run hregistry ready_scriptSetup source.name (.node 0 n)
      ⟨survey, [scope]⟩ ⟨hstart, by simp [State.ids], trivial⟩ hnode
    exact ⟨(), s.survey, (visitFile_eq_ok hscope).2 ⟨s, hs, rfl⟩⟩

end References

lemma fileId_mem_firstPass (issued : Nat) {sources : List Source}
    (hsource : source ∈ sources) (htree : source.tree = .ok (text, n)) :
    fileId source.name ∈ (firstPass scriptSetup issued sources).registry.keys := by
  obtain ⟨node, steps, -, hdone⟩ := exists_doneSteps ready_scriptSetup htree
  exact (mem_keys_firstPass ready_scriptSetup).2
    ⟨source, hsource, .register _ node, hdone ▸ mem_cons_self, rfl⟩

example (issued : Nat) (sources : List Source) :
    scriptDraft issued sources = (secondPass scriptSetup issued sources sources).draft := rfl

/-- Both passes come to the end of a source that stands between others. -/
structure WalkedThrough (issued : Nat) (before : List Source) (source : Source)
    (after : List Source) (text : String) (n : Node) : Prop where
  first : ∃ u, Definitions.visitFile scriptSetup source text n
    (firstPass scriptSetup issued before) = .ok () u
  second : ∃ u, References.visitFile scriptSetup source n
    (secondPass scriptSetup issued (before ++ source :: after) before) = .ok () u

section

variable (issued : Nat) (before after : List Source)

lemma ends_secondPass (hparsed : source.tree = .ok (text, n)) :
    let s := secondPass scriptSetup issued (before ++ source :: after) before
    Ends (Passable 0 n) (visitFile scriptSetup source n) s fun _ u ↦
      callRecords u.draft = callRecords s.draft + recordsAt s.registry
      (callPlaces (filePlace source) n) := by
  intro s
  have hregistry :
    s.registry = (firstPass scriptSetup issued (before ++ source :: after)).registry :=
    registry_secondPass scriptSetup issued _ before
  have hregistered : Registered [] s.registry :=
    hregistry ▸ (filed_firstPass ready_scriptSetup issued _).tells
  refine ends_visitFile hregistered ?_ n
  rw [hregistry]
  exact fileId_mem_firstPass issued (by simp) hparsed

/-- The definitions around a call are registered in the end if they are where its source ends. -/
lemma settled_secondPass (hparsed : source.tree = .ok (text, n))
    (h : ∃ u, visitFile scriptSetup source text n (firstPass scriptSetup issued before) =
      .ok () u) : Settled (callPlaces (filePlace source) n)
        (secondPass scriptSetup issued (before ++ source :: after) before) := by
  obtain ⟨u, hu⟩ := h
  have hsafe :=
    (ends_visitFile source text n (filed_firstPass ready_scriptSetup issued before)).1 () u hu
  have hdone : doneSteps scriptSetup source = fileSteps scriptSetup source text n := by
    rw [doneSteps, hparsed]
    exact takeWhile_eq_self_iff.2 fun step hstep ↦ by simp [hsafe step hstep]
  intro q hq hkept hplain
  rw [callPlaces_of_module _ (form_of_tree hparsed)] at hq
  have hcovers := covers_stepsAll (p := filePlace source) ⟨rfl, rfl⟩ 3 hkept hplain n.children
    (safe_cons.1 hsafe).2 hq
  show Registered q.within _
  rw [registry_secondPass scriptSetup issued _ before]
  refine ⟨(filed_firstPass ready_scriptSetup issued _).tells.tells, fun id hid ↦ ?_⟩
  obtain ⟨step, hstep, hid⟩ := mem_filterMap.1 (hcovers hid)
  refine (mem_keys_firstPass ready_scriptSetup).2 ⟨source, by simp, step, ?_, hid⟩
  rw [hdone]
  exact mem_cons_of_mem _ hstep

/-- Both passes come to the end of a source that is neither too deep nor has a number too long to be
written. Where they do, the second one has recorded the calls that it reaches, each once for the
scope that it is in, and nothing else. Apart from functions inside functions, it reaches the calls
that do not stand in an assignment. -/
theorem callRecords_addReferences (hparsed : source.tree = .ok (text, n)) :
    (Passable 0 n → WalkedThrough issued before source after text n) ∧
    (WalkedThrough issued before source after text n →
      let s := secondPass scriptSetup issued (before ++ source :: after) before
      callRecords (s.addReferences scriptSetup source).draft =
        callRecords s.draft + References.recordsAt s.registry (callPlaces (filePlace source) n) ∧
      ∀ q ∈ callPlaces (filePlace source) n, q.skipped = false →
        (References.reached s.registry q = true ↔ q.assigned = false)) := by
  have hfirst :=
    Definitions.ends_visitFile source text n (filed_firstPass ready_scriptSetup issued before)
  have hsecond := ends_secondPass issued before after hparsed
  refine ⟨fun hpassable ↦ ?_, fun hwalked ↦ ⟨?_, fun q hq hkept ↦ ?_⟩⟩
  · obtain ⟨_, u, hu⟩ := hfirst.2 hpassable
    obtain ⟨_, v, hv⟩ := hsecond.2 hpassable
    exact ⟨⟨u, hu⟩, ⟨v, hv⟩⟩
  · obtain ⟨v, hv⟩ := hwalked.second
    have hadded : (secondPass scriptSetup issued (before ++ source :: after) before).addReferences
        scriptSetup source = v := by
      rw [Survey.addReferences, hparsed]
      exact Survey.walk_of_ok hv _ _
    rw [hadded]
    exact hsecond.1 () v hv
  · have hsettled := settled_secondPass issued before after hparsed hwalked.first q hq hkept
    rw [References.reached, Bool.and_eq_true, Bool.not_eq_true', all_eq_true]
    exact ⟨fun h ↦ h.1, fun hplain ↦ ⟨hplain, fun id hid ↦
      decide_eq_true ((hsettled hplain).there hid)⟩⟩

end

/-- A function that uses another one, once in an assignment, and is used itself. -/
def usingSource : Source :=
  ⟨"a.py", "/p/a.py", .ok "def f():\n    pass\n\n\ndef g():\n    x = f()\n    f()\n\n\ng()\n"⟩

/-- Where it does so. -/
def usingPlaces : List Place :=
  [{ scope := "a.py::g", within := ["a.py::g"], inFunction := true, assigned := true },
    { scope := "a.py::g", within := ["a.py::g"], inFunction := true },
    { scope := "a.py" }]

lemma recordsAt_usingPlaces :
    recordsAt (secondPass scriptSetup 0 [usingSource] []).registry usingPlaces =
      {.str "a.py::g", .str "a.py"} := by
  have hlist : (usingPlaces.filter (reached
      (secondPass scriptSetup 0 [usingSource] []).registry)).map (fun q ↦ Json.str q.scope) =
      [.str "a.py::g", .str "a.py"] := by
    decide +kernel
  rw [recordsAt, hlist]
  rfl

theorem callRecords_addReferences_using :
    ∃ text n, usingSource.tree = .ok (text, n) ∧ Passable 0 n ∧
      callPlaces (filePlace usingSource) n = usingPlaces ∧
      WalkedThrough 0 [] usingSource [] text n ∧
      callRecords ((secondPass scriptSetup 0 [usingSource] []).addReferences scriptSetup
        usingSource).draft =
        callRecords (secondPass scriptSetup 0 [usingSource] []).draft + {.str "a.py::g",
          .str "a.py"} := by
  obtain ⟨text, n, hparsed, hshallow, hshort, hplaces⟩ := exists_tree_of_any usingSource
    (fun n ↦ 0 + 4 * n.depth + 1 ≤ Script.Walk.maxSteps ∧ n.hasTooLong = false ∧
      callPlaces (filePlace usingSource) n = usingPlaces) (by decide +kernel)
  have hpassable : Passable 0 n := ⟨hshallow, hshort⟩
  obtain ⟨hends, hrecords⟩ := callRecords_addReferences 0 [] [] hparsed
  have hwalked := hends hpassable
  refine ⟨text, n, hparsed, hpassable, hplaces, hwalked, ?_⟩
  obtain ⟨hrecords, -⟩ := hrecords hwalked
  rw [nil_append, hplaces] at hrecords
  rw [hrecords, recordsAt_usingPlaces]

/-- A function that uses another one, but only in an assignment. -/
def assignedSource : Source :=
  ⟨"a.py", "/p/a.py", .ok "def f():\n    pass\n\n\ndef g():\n    x = f()\n"⟩

/-- A call in an assignment leaves no record. -/
theorem assigned_call_unrecorded :
    (∃ text n q, assignedSource.tree = .ok (text, n) ∧
      callPlaces (filePlace assignedSource) n = [q] ∧ q.scope = "a.py::g" ∧ q.skipped = false) ∧
    callRecords (scriptDraft 0 [assignedSource]) = 0 := by
  refine ⟨?_, ?_⟩
  · obtain ⟨text, n, hparsed, hplaces⟩ := exists_tree_of_any assignedSource
      (fun n ↦ callPlaces (filePlace assignedSource) n =
        [{ scope := "a.py::g", within := ["a.py::g"], inFunction := true, assigned := true }])
      (by decide +kernel)
    exact ⟨text, n, _, hparsed, hplaces, rfl, rfl⟩
  · have hedges : (scriptDraft 0 [assignedSource]).edges.filterMap callerOfEdge = [] := by
      decide +kernel
    have htickets : (scriptDraft 0 [assignedSource]).ambiguities.filterMap callerOfTicket = [] := by
      decide +kernel
    rw [callRecords, hedges, htickets]
    rfl

end CodeAtlas.Build
