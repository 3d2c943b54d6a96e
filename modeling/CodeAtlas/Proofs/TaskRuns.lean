import CodeAtlas.Proofs.CallPlaces

/-!
# Tasks that come to their end

A definition is entered before what it holds and left after it. Every other task leaves the scopes
around as they are, except that imports bind names in the innermost one. So within a file there is
always a scope around, and what was around at the start of a task stays below all that it enters.

Where a walk over a registry comes to a task, the scopes around are those of registered definitions,
and so are the ids that the task is given. Names can then be followed. Consequently a task comes to
its end, unless the tree that it is to go through nests too deep or holds a number that is too long
to be written.
-/

namespace CodeAtlas.Build

open Fallible Stepwise List Table
open Script (Node Alias)

def Scope.defineAll {β : Type} (s : Scope β) (bound : Table String β) : Scope β :=
  bound.foldl (fun s e ↦ s.define e.1 e.2) s

lemma Scope.id_defineAll {β : Type} (s : Scope β) (bound : Table String β) :
    (s.defineAll bound).id = s.id :=
  foldlRecOn (motive := fun s' : Scope β ↦ s'.id = s.id) bound _ rfl fun _ h _ _ ↦ h

lemma Scope.get?_defineAll {β : Type} (s : Scope β) (bound : Table String β) (name : String) :
    (s.defineAll bound).symbols.get? name = (get? bound.reverse name).or (s.symbols.get? name) := by
  induction bound generalizing s with
  | nil => rfl
  | cons e bound ih =>
    show ((s.define e.1 e.2).defineAll bound).symbols.get? name = _
    rw [ih, reverse_cons, get?_append, Option.or_assoc, Scope.define, get?_put]
    congr 1
    rw [get?_cons, get?_nil]
    by_cases h : e.1 = name
    · rw [if_pos h, if_pos h.symm, Option.some_or]
    · rw [if_neg h, if_neg (Ne.symm h), Option.none_or]

namespace References

/-- The ids of the scopes around, the innermost first. -/
def State.ids (s : State) : List String := s.scopes.map Scope.id

lemma scopeId_eq (s : State) : scopeId s = s.ids.head?.getD "" := by
  rw [scopeId, State.ids, head?_map]

/-- The name that a class or a function is given. -/
def definedName? (n : Node) : Option String :=
  match n.form with
  | .classDef name _ _ _ => some name
  | .function name _ _ _ => some name
  | _ => none

def plainNames (n : Node) : List String :=
  n.params.toList.flatMap fun p ↦ p.plainParams.filterMap Node.paramName?

def boundName (a : Alias) : String := a.asName.getD a.name

mutual

/-- The names that imports in a tree bind, outside of the definitions in it. -/
def importedNames : Node → List String
  | .mk form _ children =>
    match form with
    | .classDef .. | .function .. | .assign _ => []
    | .import_ names | .importFrom _ names _ => names.map boundName
    | _ => importedNamesAll children

def importedNamesAll : List Node → List String
  | [] => []
  | n :: rest => importedNames n ++ importedNamesAll rest

end

lemma importedNames_subset {n : Node} {ns : List Node} (h : n ∈ ns) :
    importedNames n ⊆ importedNamesAll ns := by
  induction ns with
  | nil => cases h
  | cons m rest ih =>
    rw [importedNamesAll]
    rcases mem_cons.1 h with rfl | h
    · exact subset_append_left _ _
    · exact List.Subset.trans (ih h) (subset_append_right _ _)

/-- Scopes of which the innermost has come to bind some of the given names. -/
def Grows (names : List String) (scopes scopes' : List (Scope Binding)) : Prop :=
  ∃ bound : Table String Binding, bound.keys ⊆ names ∧
    scopes' = scopes.modifyHead (·.defineAll bound)

namespace Grows

variable {names names' : List String} {S S' S'' : List (Scope Binding)}

lemma refl (names : List String) (S : List (Scope Binding)) : Grows names S S := by
  refine ⟨[], by simp [Table.keys], ?_⟩
  cases S <;> rfl

lemma trans (h : Grows names S S') (h' : Grows names S' S'') : Grows names S S'' := by
  obtain ⟨bound, hbound, rfl⟩ := h
  obtain ⟨bound', hbound', rfl⟩ := h'
  refine ⟨bound ++ bound', ?_, ?_⟩
  · rw [Table.keys_append]
    exact append_subset.2 ⟨hbound, hbound'⟩
  · cases S with
    | nil => rfl
    | cons scope rest => exact congrArg (· :: rest) foldl_append.symm

lemma mono (h : Grows names S S') (hnames : names ⊆ names') : Grows names' S S' := by
  obtain ⟨bound, hbound, hS'⟩ := h
  exact ⟨bound, List.Subset.trans hbound hnames, hS'⟩

lemma eq_of_nil (h : Grows [] S S') : S' = S := by
  obtain ⟨bound, hbound, rfl⟩ := h
  obtain rfl := map_eq_nil_iff.1 (subset_nil.1 hbound)
  cases S <;> rfl

lemma ids (h : Grows names S S') : S'.map Scope.id = S.map Scope.id := by
  obtain ⟨bound, -, rfl⟩ := h
  cases S with
  | nil => rfl
  | cons scope rest => exact congrArg (· :: rest.map Scope.id) (scope.id_defineAll bound)

lemma exists_cons {scope : Scope Binding} (h : Grows names (scope :: S) S') :
    ∃ scope', S' = scope' :: S := by
  obtain ⟨bound, -, rfl⟩ := h
  exact ⟨_, rfl⟩

end Grows

namespace Task

variable {ts : List Task} {names : List String} {id : String}
variable {setup : Setup} {path : String} {s s' : State} {t u : Task}

/-- A task that neither enters nor leaves a scope, on the whole. -/
def isLevel : Task → Bool
  | .enter _ | .leave => false
  | _ => true

/-- The names that a task may bind in the innermost scope. -/
def binds : Task → List String
  | .node _ n => importedNames n
  | .importFile a => [boundName a]
  | .imported _ a => [boundName a]
  | .importFrom _ names _ => names.map boundName
  | .named name _ => [name]
  | _ => []

/-- What a task falls into in a state: tasks that stay in the scope and bind no other names, or
those of a registered definition, which enter its scope, bind its plain parameters, go over its
children, and leave it. Any other definition is passed over. -/
inductive Framed (s : State) : Task → List Task → Prop
  | nothing {depth : Nat} {d : Node} {name : String} (hd : definedName? d = some name)
      (h : ¬(s.survey.node? (symbolId (scopeId s) name)).isSome = true) :
      Framed s (.node depth d) []
  | level {t : Task} {ts : List Task} (ht : ∀ depth d, t = .node depth d → definedName? d = none)
      (h : ∀ u ∈ ts, u.isLevel = true ∧ u.binds ⊆ t.binds) : Framed s t ts
  | inside {depth depth' : Nat} {d : Node} {name : String} {front : List Task}
      (hd : definedName? d = some name) (hfront : ∀ u ∈ front, u.owner?.isSome = true) :
      Framed s (.node depth d) (front ++ .enter (symbolId (scopeId s) name) ::
        ((plainNames d).map (.named · .parameter) ++ d.children.map (.node depth')) ++ [.leave])

lemma owned_map {f : Node → Task} (hf : ∀ n, (f n).owner?.isSome = true) (ns : List Node) :
    ∀ u ∈ ns.map f, u.owner?.isSome = true := by
  intro u hu
  obtain ⟨n, -, rfl⟩ := mem_map.1 hu
  exact hf n

lemma level_map {α : Type} {f : α → Task} {xs : List α}
    (hf : ∀ x ∈ xs, (f x).isLevel = true ∧ (f x).binds ⊆ names) :
    ∀ u ∈ xs.map f, u.isLevel = true ∧ u.binds ⊆ names := by
  intro u hu
  obtain ⟨x, hx, rfl⟩ := mem_map.1 hu
  exact hf x hx

lemma level_body (names : List String) (depth : Nat) (ns : List Node) :
    ∀ u ∈ names.map (Task.named · .parameter) ++ ns.map (.node depth), u.isLevel = true := by
  intro u hu
  rcases mem_append.1 hu with hu | hu
  · obtain ⟨_, -, rfl⟩ := mem_map.1 hu
    rfl
  · obtain ⟨_, -, rfl⟩ := mem_map.1 hu
    rfl

lemma framed_nodeParts (s : State) (depth : Nat) (n : Node) :
    Framed s (.node depth n) (nodeParts s depth n) := by
  obtain ⟨form, span, children⟩ := n
  cases form with
  | classDef name bases keywords body =>
    rw [nodeParts]
    split
    · refine .inside (d := .mk (.classDef name bases keywords body) span children) rfl fun u hu ↦ ?_
      rcases mem_append.1 hu with hu | hu <;> exact owned_map (fun _ ↦ rfl) _ u hu
    next h => exact .nothing rfl h
  | function name isAsync body decorators =>
    rw [nodeParts]
    split
    · exact .inside (d := .mk (.function name isAsync body decorators) span children) rfl
        (owned_map (fun _ ↦ rfl) _)
    next h => exact .nothing rfl h
  | call count =>
    refine .level (by rintro _ _ ⟨⟩; rfl) fun u hu ↦ ?_
    rcases mem_append.1 hu with hu | hu
    · obtain ⟨m, -, rfl⟩ := Option.map_eq_some_iff.1 (Option.mem_toList.1 hu)
      exact ⟨rfl, nil_subset _⟩
    · exact level_map (fun m hm ↦ ⟨rfl, importedNames_subset hm⟩) u hu
  | import_ names =>
    refine .level (by rintro _ _ ⟨⟩; rfl) (level_map fun a ha ↦ ⟨rfl, ?_⟩)
    exact cons_subset.2 ⟨mem_map_of_mem ha, nil_subset _⟩
  | importFrom source names level =>
    exact .level (by rintro _ _ ⟨⟩; rfl) (forall_mem_singleton.2 ⟨rfl, List.Subset.refl _⟩)
  | assign count =>
    exact .level (by rintro _ _ ⟨⟩; rfl) (level_map fun _ _ ↦ ⟨rfl, nil_subset _⟩)
  | _ =>
    exact .level (by rintro _ _ ⟨⟩; rfl) (level_map fun m hm ↦ ⟨rfl, importedNames_subset hm⟩)

lemma Part.level (h : Part s t u) (ht : ∀ depth d, t ≠ .node depth d) :
    u.isLevel = true ∧ u.binds ⊆ t.binds := by
  cases h with
  | link | note => exact ⟨rfl, nil_subset _⟩
  | imported ha => exact ⟨rfl, cons_subset.2 ⟨mem_map_of_mem ha, nil_subset _⟩⟩
  | @named _ a _ ha =>
    cases t with
    | importFile | imported =>
      obtain rfl := Option.some.inj ha
      exact ⟨rfl, List.Subset.refl _⟩
    | _ => cases ha
  | _ => exact absurd rfl (ht _ _)

lemma framed_parts (h : t.parts path s = .ok ts) : Framed s t ts := by
  cases t with
  | node depth n =>
    obtain ⟨-, -, h⟩ := bind_eq_ok.1 h
    obtain rfl := pure_eq_ok.1 h
    exact framed_nodeParts s depth n
  | _ => exact .level (by simp) fun u hu ↦ (part_of_mem h hu).level (by simp)

lemma scopes_onSurvey {step : Surveying Unit} (h : onSurvey step s = .ok () s') :
    s'.scopes = s.scopes := by
  rw [onSurvey] at h
  split at h
  · cases h
    rfl
  · cases h

lemma scopes_enter (h : run setup path (.enter id) s = .ok () s') :
    ∃ scope, scopeOf s.survey id = .ok scope ∧ s' = { s with scopes := scope :: s.scopes } := by
  replace h : ((liftM (scopeOf s.survey id) : Tracing (Scope Binding)) >>= fun scope ↦
      modify fun s ↦ { s with scopes := scope :: s.scopes }) s = .ok () s' := h
  cases hscope : scopeOf s.survey id with
  | error e =>
    rw [hscope] at h
    cases h
  | ok scope =>
    rw [hscope] at h
    cases h
    exact ⟨scope, rfl, rfl⟩

lemma scopes_named {name : String} {b : Binding}
    (h : run setup path (.named name b) s = .ok () s') :
    s'.scopes = s.scopes.modifyHead (·.define name b) := by
  obtain ⟨survey, scopes⟩ := s
  cases scopes <;> (cases h; rfl)

/-- A task that keeps the scopes around, but for names that it may bind in the innermost. -/
def IsGrowing (setup : Setup) (path : String) (t : Task) : Prop :=
  t.isLevel = true → ∀ s s', t.run setup path s = .ok () s' → Grows t.binds s.scopes s'.scopes

lemma grows_runAll (hts : ∀ t ∈ ts, t.isLevel = true ∧ t.binds ⊆ names)
    (h : ∀ t ∈ ts, IsGrowing setup path t) (hrun : runAll setup path ts s = .ok () s') :
    Grows names s.scopes s'.scopes := by
  induction ts generalizing s with
  | nil =>
    cases hrun
    exact .refl _ _
  | cons t ts ih =>
    obtain ⟨ht, hts⟩ := forall_mem_cons.1 hts
    obtain ⟨hfirst, h⟩ := forall_mem_cons.1 h
    obtain ⟨_, middle, hmiddle, hrest⟩ := run_bind_eq_ok.1 hrun
    exact ((hfirst ht.1 s middle hmiddle).mono ht.2).trans (ih hts h hrest)

lemma level_of_owner? (h : t.owner?.isSome = true) : t.isLevel = true ∧ t.binds ⊆ [] := by
  cases t with
  | decorator | base => exact ⟨rfl, nil_subset _⟩
  | _ => cases h

lemma registry_runAll (hts : ∀ t ∈ ts, t.Tidy) (hrun : runAll setup path ts s = .ok () s') :
    s'.survey.registry = s.survey.registry := by
  have hkeeps : Keeps (fun s' : State ↦ Survey.Over (· = s.survey.registry) s'.survey)
      (runAll setup path ts) :=
    .forM fun t ht ↦ keeps_run_survey Survey.keepsRecords_within (hts t ht)
  exact hkeeps.of_ok rfl hrun

/-- What comes before a scope is entered leaves the scopes around alone. -/
lemma scopes_entered {front : List Task} (hfront : ∀ u ∈ front, u.owner?.isSome = true)
    (hgrows : ∀ u ∈ front, IsGrowing setup path u)
    (hrun : runAll setup path (front ++ [.enter id]) s = .ok () s') :
    ∃ scope, scopeOf s.survey id = .ok scope ∧ s'.scopes = scope :: s.scopes := by
  rw [runAll_append] at hrun
  obtain ⟨_, middle, hmiddle, hrun⟩ := run_bind_eq_ok.1 hrun
  rw [runAll_singleton] at hrun
  obtain ⟨scope, hscope, rfl⟩ := scopes_enter hrun
  have hregistry : middle.survey.registry = s.survey.registry := by
    refine registry_runAll (fun u hu ↦ ?_) hmiddle
    have howner := hfront u hu
    cases u with
    | link => cases howner
    | _ => trivial
  refine ⟨scope, by rw [← hscope, scopeOf, scopeOf, hregistry], congrArg (scope :: ·) ?_⟩
  exact (grows_runAll (fun u hu ↦ level_of_owner? (hfront u hu)) hgrows hmiddle).eq_of_nil

/-- Before a part of a task, the scopes are those at its start, perhaps with more names in the
innermost, or one more has been entered. -/
lemma Framed.scopes_before {before rest : List Task} (h : Framed s t (before ++ u :: rest))
    (hgrows : ∀ v ∈ before, IsGrowing setup path v)
    (hrun : runAll setup path before s = .ok () s') :
    Grows t.binds s.scopes s'.scopes ∧ u ≠ .leave ∧ (u.isLevel = true → u.binds ⊆ t.binds) ∨
      ∃ scope, s'.scopes = scope :: s.scopes := by
  generalize hts : before ++ u :: rest = ts at h
  cases h with
  | nothing => simp at hts
  | level _ h =>
    subst hts
    obtain ⟨hu, hbinds⟩ := h u (by simp)
    refine .inl ⟨grows_runAll (fun v hv ↦ h v (mem_append_left _ hv)) hgrows hrun,
      ?_, fun _ ↦ hbinds⟩
    rintro rfl
    cases hu
  | @inside depth depth' d name front hd hfront =>
    rw [append_assoc, append_eq_append_iff] at hts
    have hquiet (hbefore : before ⊆ front) : Grows (binds (.node depth d)) s.scopes s'.scopes :=
      (grows_runAll (fun v hv ↦ level_of_owner? (hfront v (hbefore hv))) hgrows hrun).mono
      (nil_subset _)
    rcases hts with ⟨_ | ⟨v, as⟩, rfl, hrest⟩ | ⟨_ | ⟨v, inner⟩, rfl, hrest⟩
    · cases hrest
      exact .inl ⟨hquiet (by simp), by simp, fun hu ↦ (by cases hu)⟩
    · cases hrest
      obtain ⟨hu, hbinds⟩ := level_of_owner? (hfront u (by simp))
      refine .inl ⟨hquiet (by simp), ?_, fun _ ↦ List.Subset.trans hbinds (nil_subset _)⟩
      rintro rfl
      cases hu
    · cases hrest
      exact .inl ⟨hquiet (by simp), by simp, fun hu ↦ (by cases hu)⟩
    · -- The scope has been entered, and what it holds leaves those around it alone.
      rw [cons_append, cons_append, cons.injEq] at hrest
      obtain ⟨rfl, hbody⟩ := hrest
      have hinner : inner ⊆ (plainNames d).map (.named · .parameter) ++
          d.children.map (.node depth') := by
        have hdrop := congrArg dropLast hbody
        rw [dropLast_concat, dropLast_append_cons] at hdrop
        exact hdrop ▸ subset_append_left _ _
      rw [append_cons, runAll_append] at hrun
      obtain ⟨_, middle, hmiddle, hrun⟩ := run_bind_eq_ok.1 hrun
      obtain ⟨scope, -, hscopes⟩ :=
        scopes_entered hfront (fun v hv ↦ hgrows v (mem_append_left _ hv)) hmiddle
      have hgrown : Grows (inner.flatMap binds) middle.scopes s'.scopes := by
        refine grows_runAll (fun v hv ↦ ⟨?_, fun x hx ↦ mem_flatMap.2 ⟨v, hv, hx⟩⟩)
          (fun v hv ↦ hgrows v (by simp [hv])) hrun
        exact level_body _ _ _ v (hinner hv)
      rw [hscopes] at hgrown
      exact .inr hgrown.exists_cons

lemma Framed.grows (h : Framed s t ts) (hgrows : ∀ u ∈ ts, IsGrowing setup path u)
    (hrun : runAll setup path ts s = .ok () s') : Grows t.binds s.scopes s'.scopes := by
  have hframed := h
  cases h with
  | nothing =>
    cases hrun
    exact .refl _ _
  | level _ h => exact grows_runAll h hgrows hrun
  | inside hd hfront =>
    rw [runAll_append] at hrun
    obtain ⟨_, middle, hmiddle, hrun⟩ := run_bind_eq_ok.1 hrun
    cases hrun
    rcases hframed.scopes_before (fun u hu ↦ hgrows u (mem_append_left _ hu)) hmiddle with h | h
    · exact absurd rfl h.2.1
    · obtain ⟨scope, hscopes⟩ := h
      show Grows _ s.scopes middle.scopes.tail
      rw [hscopes]
      exact .refl _ _

/-- A task that comes to its end is in the scopes that it started in, unless it is the one that
enters or leaves them. -/
lemma isGrowing_run (t : Task) : IsGrowing setup path t := by
  induction t using induction_on with
  | h t ih =>
    intro ht s s' hrun
    cases hstep : t.isStep with
    | true =>
      cases t with
      | link | note =>
        rw [scopes_onSurvey hrun]
        exact .refl _ _
      | named name b =>
        rw [scopes_named hrun]
        exact ⟨[(name, b)], List.Subset.refl _, rfl⟩
      | enter | leave => cases ht
      | _ => cases hstep
    | false =>
      obtain ⟨ts, hts, hdone⟩ := (falls_run hstep s).of_ok hrun
      exact (framed_parts hts).grows (fun u hu ↦ ih s u (part_of_mem hts hu)) hdone

end Task

end References

end CodeAtlas.Build

namespace CodeAtlas.Build.References

open Fallible Stepwise
open Script (Node Alias)

variable {registry : Table String Json} {s : State}

lemma ends_onSurvey {fine : Prop} {step : Surveying Unit} {Q : Unit → Survey → Prop}
    (h : Ends fine step s.survey Q) :
    Ends fine (onSurvey step) s fun _ s' ↦ s'.scopes = s.scopes ∧ Q () s'.survey := by
  have hok {survey : Survey} (hstep : step s.survey = .ok () survey) :
      onSurvey step s = .ok () { s with survey } := by
    rw [onSurvey, hstep]
  refine ⟨fun _ s' hrun ↦ ?_, fun hyes ↦ ?_⟩
  · cases hstep : step s.survey with
    | ok _ survey =>
      rw [hok hstep] at hrun
      cases hrun
      exact ⟨rfl, h.1 _ _ hstep⟩
    | error f survey =>
      rw [onSurvey, hstep] at hrun
      cases hrun
  · obtain ⟨_, survey, hstep⟩ := h.2 hyes
    exact ⟨_, _, hok hstep⟩

section

variable {known : List String}

lemma mem_keys_scopeId (hs : Proven registry s) (hids : s.ids ≠ []) :
    scopeId s ∈ registry.keys := by
  obtain ⟨survey, scopes⟩ := s
  cases scopes with
  | nil => exact absurd rfl hids
  | cons scope rest => exact (hs.scopes scope List.mem_cons_self).id

variable (hregistry : Registered known registry)
include hregistry

lemma exists_enclosingClass? {survey : Survey} (hsurvey : survey.registry = registry)
    (scopes : List (Scope Binding)) : ∃ found, enclosingClass? survey scopes = .ok found := by
  induction scopes with
  | nil => exact ⟨none, rfl⟩
  | cons scope rest ih =>
    rw [enclosingClass?]
    split
    next node hnode =>
      have hmem := Table.mem_of_get? (Option.filter_eq_some_iff.1 hnode).1
      obtain ⟨type, htype⟩ := (hregistry.tells _ _ (hsurvey ▸ hmem)).type
      rw [Json.need_eq_ok.2 htype]
      change ∃ found, (if type.same "Class" = true then _ else _) = _
      split
      · exact ⟨some scope.id, rfl⟩
      · exact ih
    next => exact ih

lemma exists_receiverMember? (hs : Proven registry s) (value : Node) (name : String) :
    ∃ found, receiverMember? s value name = .ok found := by
  rw [receiverMember?]
  split
  · obtain ⟨found, hfound⟩ := exists_enclosingClass? hregistry hs.unchanged s.scopes
    rw [hfound]
    cases found with
    | none => exact ⟨none, rfl⟩
    | some id => exact ⟨_, rfl⟩
  · exact ⟨none, rfl⟩

lemma exists_resolve (hs : Proven registry s) (n : Node) : ∃ found, resolve s n = .ok found := by
  fun_induction resolve s n with
  | case1 id _ _ _ => exact ⟨_, rfl⟩
  | case2 name _ _ value ih =>
    obtain ⟨found, hfound⟩ := ih
    obtain ⟨receiver, hreceiver⟩ := exists_receiverMember? hregistry hs value name
    rw [hfound]
    simp only [Bind.bind, Except.bind]
    split
    · split
      · exact ⟨_, rfl⟩
      · exact ⟨receiver, hreceiver⟩
    · exact ⟨receiver, hreceiver⟩
  | case3 => exact ⟨none, rfl⟩

lemma exists_scopeOf {survey : Survey} (hsurvey : survey.registry = registry) (id : String) :
    ∃ scope, scopeOf survey id = .ok scope := by
  obtain ⟨members, hmembers⟩ : ∃ members, survey.registry.filterMapM (memberOf? id) =
    .ok members := by
    refine exists_filterMapM_of_forall fun entry hentry ↦ ?_
    obtain ⟨name, hname⟩ := (hregistry.tells entry.1 entry.2 (hsurvey ▸ hentry)).name
    rw [memberOf?]
    split
    · split
      · exact ⟨none, rfl⟩
      · rw [Json.need_eq_ok.2 hname]
        exact ⟨_, rfl⟩
    · exact ⟨none, rfl⟩
  exact ⟨_, bind_eq_ok.2 ⟨members, hmembers, rfl⟩⟩

end

namespace Task

/-- A task that is given registered ids only. -/
def Known (registry : Table String Json) : Task → Prop
  | .decorator owner _ => owner ∈ registry.keys
  | .base owner _ => owner ∈ registry.keys
  | .link _ a b _ => a ∈ registry.keys ∧ b ∈ registry.keys
  | .named _ b => b.Known registry
  | .enter id => id ∈ registry.keys
  | _ => True

/-- A task that a walk over a registry may come to. -/
structure Sited (registry : Table String Json) (t : Task) (s : State) : Prop where
  proven : Proven registry s
  inside : s.ids ≠ []
  known : t.Known registry

variable {setup : Setup} {path : String} {s' : State} {t u : Task}

lemma Given.mem_keys {id : String} (hid : Given s t id) (h : t.Sited registry s) :
    id ∈ registry.keys := by
  cases hid with
  | scope => exact mem_keys_scopeId h.proven h.inside
  | owner howner =>
    have hknown := h.known
    cases t with
    | decorator owner n => exact Option.some.inj howner ▸ hknown
    | base owner n => exact Option.some.inj howner ▸ hknown
    | _ => cases howner
  | followed hresolve => exact known_of_resolve h.proven hresolve
  | found hmem => exact h.proven.unchanged ▸ hmem

lemma Part.known (hpart : Part s t u) (h : t.Sited registry s) : u.Known registry := by
  have hfound {id : String} (hid : (s.survey.node? id).isSome = true) : id ∈ registry.keys :=
    h.proven.unchanged ▸ Survey.mem_keys_of_node? hid
  cases hpart with
  | decorator _ hid => exact hfound hid
  | base _ hid => exact hfound hid
  | enter hid => exact hfound hid
  | named _ hid => exact hfound hid
  | link _ ha hb _ => exact ⟨ha.mem_keys h, hb.mem_keys h⟩
  | _ => trivial

lemma Known.isGrounded (ht : t.Known registry) : t.IsGrounded registry := by
  cases t with
  | named name b => exact ht
  | enter id => exact ht
  | _ => trivial

/-- Where a walk may come to a task, it may come to each of its parts after those before. -/
lemma Sited.of_parts {before rest : List Task} (h : t.Sited registry s)
    (hparts : t.parts path s = .ok (before ++ u :: rest))
    (hbefore : runAll setup path before s = .ok () s') : u.Sited registry s' where
  proven := by
    have hkeeps : Keeps (Proven registry) (runAll setup path before) := by
      refine .forM fun v hv ↦ keeps_proven_run setup path ?_
      exact (part_of_mem hparts (List.mem_append_left _ hv)).isGrounded h.proven
    exact hkeeps.of_ok h.proven hbefore
  inside := by
    rcases (framed_parts hparts).scopes_before (fun v _ ↦ isGrowing_run v)
      hbefore with hgrows | hcons
    · rw [State.ids, hgrows.1.ids]
      exact h.inside
    · obtain ⟨scope, hscopes⟩ := hcons
      simp [State.ids, hscopes]
  known := (part_of_mem hparts (by simp)).known h

/-- The expression that a task may have to show. -/
def shown? : Task → Option Node
  | .decorator _ n => some n
  | .base _ n => some n
  | .call _ callee => some callee
  | _ => none

/-- What a task goes through is neither too deep nor has it a number that is too long to be written.
-/
structure Passable (t : Task) : Prop where
  node : ∀ depth n, t = .node depth n → Build.Passable depth n
  shown : ∀ n, t.shown? = some n → n.hasTooLong = false

lemma Part.passable (hpart : Part s t u) (ht : t.Passable) : u.Passable := by
  cases hpart with
  | @child depth steps n m hm hsteps =>
    obtain ⟨form, span, children⟩ := n
    refine ⟨?_, by simp [shown?]⟩
    rintro _ _ ⟨⟩
    exact (ht.node _ _ rfl).child hsteps m hm
  | decorator hm | base hm | call hm =>
    refine ⟨by simp, ?_⟩
    rintro _ ⟨⟩
    exact hasTooLong_of_mem_children hm (ht.node _ _ rfl).short
  | _ => exact ⟨by simp, by simp [shown?]⟩

section

variable {known : List String} (hregistry : Registered known registry)
include hregistry

lemma exists_resolved (hs : Proven registry s) {n : Node} (hshort : n.hasTooLong = false)
    (link : String → Task) (kind reason scope : String) :
    ∃ ts, resolved s n link kind reason scope = .ok ts := by
  obtain ⟨found, hfound⟩ := exists_resolve hregistry hs n
  obtain ⟨text, htext⟩ := exists_display hshort
  have hnote : n.display >>= (fun text ↦ .ok [.note kind text reason scope]) =
      .ok [Task.note kind text reason scope] := bind_eq_ok.2 ⟨text, htext, rfl⟩
  rw [resolved, hfound]
  rcases found with _ | ⟨id⟩ | _
  · exact ⟨_, hnote⟩
  · exact ⟨_, rfl⟩
  · exact ⟨_, hnote⟩

lemma exists_parts (hs : Proven registry s) (ht : t.Passable) : ∃ ts, t.parts path s = .ok ts := by
  cases t with
  | node depth n => exact ⟨nodeParts s depth n, bind_eq_ok.2 ⟨(), (ht.node depth n rfl).enter, rfl⟩⟩
  | decorator owner n => exact exists_resolved hregistry hs (ht.shown n rfl) _ _ _ _
  | base owner n => exact exists_resolved hregistry hs (ht.shown n rfl) _ _ _ _
  | call line callee => exact exists_resolved hregistry hs (ht.shown callee rfl) _ _ _ _
  | importFile | importFrom =>
    rw [parts]
    split <;> exact ⟨_, rfl⟩
  | target n =>
    rw [parts]
    split
    · split
      · split
        next entry hentry =>
          have hmem := Table.mem_of_get? (Option.filter_eq_some_iff.1 hentry).1
          obtain ⟨type, htype⟩ := (hregistry.tells _ _ (hs.unchanged ▸ hmem)).type
          rw [Json.need_eq_ok.2 htype]
          exact ⟨if type.same "Variable" then _ else _, by rw [apply_ite Except.ok]; rfl⟩
        next => exact ⟨_, rfl⟩
      · exact ⟨_, rfl⟩
    · exact ⟨_, rfl⟩
  | _ => exact ⟨_, rfl⟩

lemma exists_run_step (hsetup : setup.Ready) (ht : t.isStep = true) (h : t.Sited registry s) :
    ∃ s', t.run setup path s = .ok () s' := by
  have hunchanged := h.proven.unchanged
  subst hunchanged
  cases t with
  | link relation a b details =>
    obtain ⟨_, s', hrun⟩ := (ends_onSurvey
      (Survey.ends_emitEdge setup relation details hregistry h.known.1 h.known.2)).2 hsetup
    exact ⟨s', hrun⟩
  | note kind expression reason scope =>
    obtain ⟨_, s', hrun⟩ := (ends_onSurvey (s := s)
      (Survey.ends_emitTicket setup kind expression reason scope "unresolved" s.survey)).2 hsetup
    exact ⟨s', hrun⟩
  | enter id =>
    obtain ⟨scope, hscope⟩ := exists_scopeOf hregistry rfl id
    refine ⟨⟨s.survey, scope :: s.scopes⟩, ?_⟩
    show ((liftM (scopeOf s.survey id) : Tracing (Scope Binding)) >>= fun scope ↦
      modify fun s ↦ { s with scopes := scope :: s.scopes }) s = _
    rw [hscope]
    rfl
  | named | leave => exact ⟨_, rfl⟩
  | _ => cases ht

lemma exists_run (hsetup : setup.Ready) (path : String) (t : Task) :
    ∀ s, t.Sited registry s → t.Passable → ∃ s', t.run setup path s = .ok () s' := by
  induction t using induction_on with
  | h t ih =>
    intro s hs ht
    cases hstep : t.isStep with
    | true => exact exists_run_step hregistry hsetup hstep hs
    | false =>
      obtain ⟨ts, hts⟩ := exists_parts hregistry hs.proven ht
      have hbefore (before rest : List Task) (hsplit : before ++ rest = ts) :
          ∃ s', runAll setup path before s = .ok () s' := by
        induction before using List.reverseRecOn generalizing rest with
        | nil => exact ⟨s, rfl⟩
        | append_singleton before u ihbefore =>
          rw [List.append_assoc, List.singleton_append] at hsplit
          obtain ⟨s', hbefore⟩ := ihbefore _ hsplit
          subst hsplit
          have hpart := part_of_mem hts (List.mem_append_right before List.mem_cons_self)
          obtain ⟨s'', hrun⟩ := ih s u hpart s' (hs.of_parts hts hbefore) (hpart.passable ht)
          refine ⟨s'', ?_⟩
          rw [runAll_append, runAll_singleton]
          exact run_bind_eq_ok.2 ⟨(), s', hbefore, hrun⟩
      obtain ⟨s', hdone⟩ := hbefore ts [] (List.append_nil ts)
      exact ⟨s', (falls_run hstep s).run_of_ok hts hdone⟩

end

end Task

end CodeAtlas.Build.References
