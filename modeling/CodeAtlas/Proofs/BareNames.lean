import CodeAtlas.Proofs.ProvenWalk

/-!
# What a bare name means

A bare name is followed through the scopes around it, and a scope is entered for every class and
every function. Inside of a definition an import there comes first, then a plain parameter, then a
member of the definition; any other name means what it means outside. Consequently the members of a
class are seen by bare name from its methods, and only plain parameters hide what has their name
outside.
-/

namespace CodeAtlas.Build.References

open Fallible Stepwise List Table
open Script (Node Form Usage Span)

variable {id : String} {registry : Table String Json} {callee : Node} {ids names : List String}

lemma lookup_cons {β : Type} (scope : Scope β) (rest : List (Scope β)) (name : String) :
    Scope.lookup (scope :: rest) name = (scope.symbols.get? name).or (Scope.lookup rest name) := by
  rw [Scope.lookup, findSome?_cons]
  cases scope.symbols.get? name <;> rfl

/-- The id of an entry, if it stands right below a scope and has the name. -/
def idIfNamed (scope name : String) (entry : String × Json) : Option String :=
  match memberOf? scope entry with
  | .ok (some m) => if m.1 = name then some m.2 else none
  | _ => none

/-- The definition right below a scope that has a name, the last one of them. -/
def memberNamed? (registry : Table String Json) (scope name : String) : Option String :=
  registry.reverse.findSome? (idIfNamed scope name)

lemma get?_members {scope : String} {members : Table String String}
    (h : registry.filterMapM (memberOf? scope) = .ok members) (name : String) :
    get? members.reverse name = memberNamed? registry scope name := by
  induction registry generalizing members with
  | nil =>
    obtain rfl := pure_eq_ok.1 h
    rfl
  | cons entry registry ih =>
    rw [filterMapM_cons] at h
    obtain ⟨found, hfound, h⟩ := bind_eq_ok.1 h
    rw [memberNamed?, reverse_cons, findSome?_append, ← memberNamed?]
    cases found with
    | none =>
      rw [ih h, findSome?_singleton, idIfNamed, hfound, Option.or_none]
    | some m =>
      obtain ⟨rest, hrest, h⟩ := bind_eq_ok.1 h
      obtain rfl := pure_eq_ok.1 h
      rw [reverse_cons, get?_append, ih hrest, findSome?_singleton, idIfNamed, hfound]
      rfl

lemma get?_scopeOf {survey : Survey} {owner : String} {scope : Scope Binding}
    (h : scopeOf survey owner = .ok scope) (name : String) :
    scope.symbols.get? name = (memberNamed? survey.registry owner name).map .symbol := by
  obtain ⟨members, hmembers, h⟩ := bind_eq_ok.1 h
  have hscope : scope = Scope.defineAll ⟨owner, []⟩ (members.map (Prod.map id .symbol)) := by
    rw [Scope.defineAll, foldl_map]
    exact (pure_eq_ok.1 h).symm
  rw [hscope, Scope.get?_defineAll, ← map_reverse, get?_map, get?_members hmembers]
  exact Option.or_none

/-- What a name means inside of a definition: imports there come first, then its plain parameters,
then its members, and then what the name means outside. -/
def meaningInside (registry : Table String Json) (id : String) (d : Node)
    (imported : Table String Binding) (outside : Option Binding) (name : String) : Option Binding :=
  (imported.get? name).or (if name ∈ plainNames d then some .parameter
    else ((memberNamed? registry id name).map .symbol).or outside)

lemma meaningInside_of_notMem {d : Node} {imported : Table String Binding} {name : String}
    (h : name ∉ imported.keys) (outside : Option Binding) :
    meaningInside registry id d imported outside name =
      if name ∈ plainNames d then some .parameter
      else ((memberNamed? registry id name).map .symbol).or outside := by
  rw [meaningInside, get?_eq_none_iff.2 h, Option.none_or]

/-- What is recorded for a call of something, known or not. -/
def recordCall (setup : Setup) (line : Nat) (callee : Node) (caller : String) :
    Option Binding → Tracing Unit
  | some (.symbol id) => emitEdge setup "calls" caller id [("call_line", .int line)]
  | _ => do emitTicket setup "call_target_unknown" (← callee.display) "Target not proven" caller

lemma visitCall_eq (setup : Setup) (line : Nat) {s : State} {b : Option Binding}
    (h : resolve s callee = .ok b) :
    visitCall setup line callee s = recordCall setup line callee (scopeId s) b s := by
  show (((liftM (resolve s callee) : Tracing (Option Binding)) >>= fun found ↦ _) >>= _) s = _
  rw [h]
  rcases b with _ | ⟨id⟩ | _ <;> rfl

namespace Task

variable {setup : Setup} {path : String} {s s' : State} {t u : Task}

/-- A point of the source that a walk comes to where it stands. -/
def isPlace : Task → Bool
  | .node .. | .call .. => true
  | _ => false

lemma Part.isPlace (h : Part s t u) (hu : u.isPlace = true) : t.isPlace = true := by
  cases h with
  | child | call => rfl
  | _ => cases hu

lemma Comes.isPlace (h : Comes setup path t s u s') (hu : u.isPlace = true) : t.isPlace = true := by
  induction h with
  | start => exact hu
  | part hparts _ _ ih => exact (part_of_mem hparts (by simp)).isPlace (ih hu)

/-- What is around at the start of a task stays below the scopes that are entered. -/
lemma Comes.exists_scopes (h : Comes setup path t s u s') (ht : t.isLevel = true) :
    ∃ inner outer, s'.scopes = inner ++ outer ∧ Grows t.binds s.scopes outer := by
  induction h with
  | start t s => exact ⟨[], s.scopes, rfl, .refl _ _⟩
  | @part t v u s s₁ s' before rest hparts hbefore hcomes ih =>
    have hcases := (framed_parts hparts).scopes_before (fun v _ ↦ isGrowing_run v) hbefore
    cases hv : v.isLevel with
    | false =>
      obtain rfl : s₁ = s' := by
        cases hcomes with
        | start => rfl
        | part hparts =>
          cases v with
          | enter | leave => simp [parts] at hparts
          | _ => cases hv
      rcases hcases with hgrows | ⟨scope, hscopes⟩
      · exact ⟨[], _, rfl, hgrows.1⟩
      · exact ⟨[scope], _, hscopes, .refl _ _⟩
    | true =>
      obtain ⟨inner, outer, hscopes, hgrown⟩ := ih hv
      rcases hcases with hgrows | ⟨scope, hentered⟩
      · exact ⟨inner, outer, hscopes, hgrows.1.trans (hgrown.mono (hgrows.2.2 hv))⟩
      · rw [hentered] at hgrown
        obtain ⟨scope', rfl⟩ := hgrown.exists_cons
        exact ⟨inner ++ [scope'], s.scopes, by simp [hscopes], .refl _ _⟩

lemma scopes_params (h : runAll setup path (names.map (.named · .parameter)) s = .ok () s') :
    s'.scopes = s.scopes.modifyHead (·.defineAll (names.map (·, .parameter))) := by
  induction names generalizing s with
  | nil =>
    cases h
    cases s'.scopes <;> rfl
  | cons name names ih =>
    obtain ⟨_, middle, hmiddle, h⟩ := run_bind_eq_ok.1 h
    rw [ih h, scopes_named hmiddle]
    cases s.scopes <;> rfl

lemma exists_of_append_cons_eq {α : Type} {before rest as bs : List α} {a : α}
    (h : before ++ a :: rest = as ++ bs) (ha : a ∉ as) :
    ∃ inner, before = as ++ inner ∧ inner ++ a :: rest = bs := by
  rcases append_eq_append_iff.1 h with ⟨_ | ⟨b, more⟩, rfl, hrest⟩ | ⟨inner, rfl, hrest⟩
  · exact ⟨[], by simp, hrest⟩
  · cases hrest
    simp at ha
  · exact ⟨inner, rfl, hrest.symm⟩

/-- Before a place right inside of a definition, its scope is entered, its plain parameters are
named and some of its children are gone over. -/
lemma exists_before_child {before rest front cs : List Task}
    (h : before ++ u :: rest = front ++ .enter id :: (names.map (.named · .parameter) ++ cs) ++
      [.leave])
    (hfront : ∀ v ∈ front, v.owner?.isSome = true) (hu : u.isPlace = true) :
    ∃ inner, before = front ++ [.enter id] ++ names.map (.named · .parameter) ++ inner ∧
      inner ⊆ cs ∧ u ∈ cs := by
  have hopened : u ∉ front ++ [.enter id] ++ names.map (.named · .parameter) := by
    intro hmem
    simp only [mem_append, mem_singleton, mem_map] at hmem
    rcases hmem with (hmem | rfl) | ⟨_, -, rfl⟩
    · have howner := hfront u hmem
      cases u with
      | decorator | base => cases hu
      | _ => cases howner
    · cases hu
    · cases hu
  have hsplit : before ++ u :: rest =
      front ++ [.enter id] ++ names.map (.named · .parameter) ++ (cs ++ [.leave]) :=
      by simpa using h
  obtain ⟨inner, rfl, hrest⟩ := exists_of_append_cons_eq hsplit hopened
  have hdrop := congrArg List.dropLast hrest
  rw [dropLast_concat, dropLast_append_cons] at hdrop
  refine ⟨inner, rfl, hdrop ▸ subset_append_left _ _, ?_⟩
  have hmem : u ∈ cs ++ [.leave] := hrest ▸ by simp
  rcases mem_append.1 hmem with hmem | hmem
  · exact hmem
  · obtain rfl := mem_singleton.1 hmem
    cases hu

lemma get?_map_parameter (names : List String) (name : String) :
    get? (names.map (·, Binding.parameter)) name =
      if name ∈ names then some .parameter else none := by
  induction names with
  | nil => rfl
  | cons first names ih =>
    rw [map_cons, get?_cons, ih]
    by_cases h : first = name
    · simp [h]
    · simp [h, Ne.symm h]

section

-- A walk comes to a place right inside of a definition.
variable {depth : Nat} {d : Node} {name : String} (hd : definedName? d = some name)
  (h : Comes setup path (.node depth d) s u s') (hu : u.isPlace = true)
  (hids : s'.ids = symbolId (scopeId s) name :: s.ids)
include hd h hu hids

/-- The scope of the definition has been entered with its members, and then plain parameters and
imports have been given their names. -/
lemma Comes.scopes_inside :
    ∃ scope bound, scopeOf s.survey (symbolId (scopeId s) name) = .ok scope ∧
      Table.keys bound ⊆ importedNamesAll d.children ∧
      s'.scopes = (scope.defineAll ((plainNames d).map (·, .parameter))).defineAll bound ::
      s.scopes := by
  cases h with
  | start => simpa using congrArg List.length hids
  | @part _ v _ _ _ _ before rest hparts hbefore hcomes =>
    have hframed := framed_parts hparts
    generalize hts : before ++ v :: rest = ts at hframed
    cases hframed with
    | nothing => simp at hts
    | level ht =>
      rw [ht depth d rfl] at hd
      cases hd
    | @inside _ depth' _ name' front hd' hfront =>
      obtain rfl : name = name' := Option.some.inj (hd.symm.trans hd')
      obtain ⟨inner, rfl, hinner, hchild⟩ := exists_before_child hts hfront (hcomes.isPlace hu)
      have hlevel : ∀ w ∈ d.children.map (Task.node depth'),
          w.isLevel = true ∧ w.binds ⊆ importedNamesAll d.children :=
        level_map fun m hm ↦ ⟨rfl, importedNames_subset hm⟩
      rw [runAll_append, runAll_append, bind_assoc] at hbefore
      obtain ⟨_, opened, hopened, hbefore⟩ := run_bind_eq_ok.1 hbefore
      obtain ⟨_, seeded, hseeded, hbefore⟩ := run_bind_eq_ok.1 hbefore
      obtain ⟨scope, hscope, hscopes⟩ := scopes_entered hfront (fun w _ ↦ isGrowing_run w) hopened
      obtain ⟨deeper, outer, hdeeper, hgrown⟩ := hcomes.exists_scopes (hlevel v hchild).1
      have hgrows := (grows_runAll (fun w hw ↦ hlevel w (hinner hw)) (fun w _ ↦ isGrowing_run w)
        hbefore).trans (hgrown.mono (hlevel v hchild).2)
      rw [scopes_params hseeded, hscopes] at hgrows
      obtain ⟨bound, hbound, rfl⟩ := hgrows
      -- No scope has been entered below that of the definition.
      obtain rfl : deeper = [] := by
        simpa [State.ids, hdeeper] using congrArg List.length hids
      exact ⟨scope, bound, hscope, hbound, hdeeper⟩

lemma Comes.lookup_inside :
    ∃ imported : Table String Binding, imported.keys ⊆ importedNamesAll d.children ∧
      ∀ x, Scope.lookup s'.scopes x = meaningInside s.survey.registry (symbolId (scopeId s) name) d
        imported (Scope.lookup s.scopes x) x := by
  obtain ⟨scope, bound, hscope, hbound, hscopes⟩ := h.scopes_inside hd hu hids
  refine ⟨bound.reverse, ?_, fun x ↦ ?_⟩
  · rw [Table.keys, map_reverse]
    exact reverse_subset.2 hbound
  · rw [hscopes, lookup_cons, Scope.get?_defineAll, Scope.get?_defineAll, get?_scopeOf hscope,
      ← map_reverse, get?_map_parameter, meaningInside]
    by_cases hx : x ∈ plainNames d
    · simp [hx]
    · simp [hx, Option.or_assoc]

end

lemma Comes.registry_eq (h : Comes setup path t s u s') :
    s'.survey.registry = s.survey.registry := by
  induction h with
  | start => rfl
  | part hparts hbefore _ ih =>
    have htidy :=
      registry_runAll (fun v hv ↦ (part_of_mem hparts (mem_append_left _ hv)).tidy) hbefore
    exact ih.trans htidy

lemma scopeId_of_ids (h : s.ids = id :: ids) : scopeId s = id := by
  rw [scopeId_eq, h]
  rfl

lemma visitCall_of_lookup (setup : Setup) (line : Nat) {f : String} {usage : Usage}
    (hcallee : callee.form = .name f usage) (hids : s.ids = id :: ids) :
    visitCall setup line callee s = recordCall setup line callee id
    (Scope.lookup s.scopes f) s := by
  obtain ⟨form, span, children⟩ := callee
  obtain rfl : form = .name f usage := hcallee
  rw [visitCall_eq setup line (resolve.eq_1 s f usage span children), scopeId_of_ids hids]

/-- A call of a bare name right inside of a function is recorded by what the name means there. So a
plain parameter that no import there replaces hides all that has its name outside. A parameter of
another kind hides nothing: it is taken for what has its name outside, unless the function also
writes it. -/
theorem call_in_function (setup : Setup) (path : String) {depth line body decorators : Nat}
    {isAsync : Bool} {d callee : Node} {name p : String} {usage : Usage} {s s' : State}
    (hd : d.form = .function name isAsync body decorators)
    (hcomes : Comes setup path (.node depth d) s (.call line callee) s')
    (hids : s'.ids = symbolId (scopeId s) name :: s.ids) (hcallee : callee.form = .name p usage) :
    let caller := symbolId (scopeId s) name
    let record := recordCall setup line callee caller
    (∃ imported : Table String Binding, imported.keys ⊆ importedNamesAll d.children ∧
      visitCall setup line callee s' =
        record (meaningInside s.survey.registry caller d imported (Scope.lookup s.scopes p) p) s') ∧
    (p ∉ importedNamesAll d.children →
      (p ∈ plainNames d → visitCall setup line callee s' = record (some .parameter) s') ∧
      (p ∉ plainNames d → memberNamed? s.survey.registry caller p = none →
        visitCall setup line callee s' = record (Scope.lookup s.scopes p) s')) := by
  intro caller record
  have hname : definedName? d = some name := by rw [definedName?, hd]
  obtain ⟨imported, himported, hlookup⟩ := hcomes.lookup_inside hname rfl hids
  have hcall := visitCall_of_lookup setup line hcallee hids
  rw [hlookup p] at hcall
  refine ⟨⟨imported, himported, hcall⟩, fun hp ↦ ⟨fun hplain ↦ ?_, fun hplain hmember ↦ ?_⟩⟩
  · rw [hcall, meaningInside_of_notMem fun h ↦ hp (himported h), if_pos hplain]
  · rw [hcall, meaningInside_of_notMem fun h ↦ hp (himported h), if_neg hplain, hmember]
    rfl

/-- A function with a parameter of each kind, of which `b` is the plain one, that does some call. -/
def closingNode (callee : Node) : Node :=
  .mk (.function "close" false 1 0) ⟨1, 2⟩ [
    .mk (.params ⟨1, 1, true, 1, [false], true⟩) ⟨1, 1⟩
      (["a", "b", "c", "d", "e"].map fun name ↦ .leaf (.param name) ⟨1, 1⟩),
    .mk .expr ⟨2, 2⟩ [.mk (.call 0) ⟨2, 2⟩ [callee]]]

def bareName (name : String) : Node := .leaf (.name name .load) ⟨2, 2⟩

/-- A function in a file, and a class with a method of the same name and with another one. -/
def closingSurvey : Survey where
  registry := [("a.py::close", .obj [("name", .str "close")]),
    ("a.py::Shop", .obj [("name", .str "Shop")]),
    ("a.py::Shop::close", .obj [("name", .str "close")]),
    ("a.py::Shop::sell", .obj [("name", .str "sell")])]

/-- The file, where the name of each parameter stands for something else. -/
def closingFile : Scope Binding :=
  ⟨"a.py", ["a", "b", "c", "d", "e"].map fun name ↦ (name, .symbol ("a.py::" ++ name))⟩

lemma comes_to_closing (setup : Setup) {rest : List Task} {params : Node}
    (hparts : parts "a.py" s (.node 3 (closingNode callee)) = .ok (
      [.enter id, .named "b" .parameter, .node 7 params] ++
        .node 7 (.mk .expr ⟨2, 2⟩ [.mk (.call 0) ⟨2, 2⟩ [callee]]) :: rest))
    (hrun : runAll setup "a.py" [.enter id, .named "b" .parameter, .node 7 params] s = .ok () s') :
    Comes setup "a.py" (.node 3 (closingNode callee)) s (.call 2 callee) s' := by
  have hexpr : parts "a.py" s' (.node 7 (.mk .expr ⟨2, 2⟩ [.mk (.call 0) ⟨2, 2⟩ [callee]])) =
      .ok ([] ++ .node 9 (.mk (.call 0) ⟨2, 2⟩ [callee]) :: []) := rfl
  have hcall : parts "a.py" s' (.node 9 (.mk (.call 0) ⟨2, 2⟩ [callee])) =
      .ok ([] ++ .call 2 callee :: [.node 12 callee]) := rfl
  exact .part hparts hrun (.part hexpr rfl (.part hcall rfl (.start _ _)))

theorem call_in_function_closing : ∃ s',
    (∀ p ∈ ["a", "c", "d", "e"], visitCall scriptSetup 2 (bareName p) s' =
      emitEdge scriptSetup "calls" "a.py::close" ("a.py::" ++ p) [("call_line", .int 2)] s') ∧
    visitCall scriptSetup 2 (bareName "b") s' = emitTicket scriptSetup "call_target_unknown"
      "Name(id='b', ctx=Load())" "Target not proven" "a.py::close" s' := by
  have hcall (p : String) := call_in_function scriptSetup "a.py" (d := closingNode (bareName p))
    (p := p) rfl
    (comes_to_closing scriptSetup (s := ⟨closingSurvey, [closingFile]⟩) rfl rfl) rfl rfl
  refine ⟨_, fun p hp ↦ ?_, ((hcall "b").2 (by decide)).1 (by decide)⟩
  rw [((hcall p).2 (by exact List.not_mem_nil)).2 ?_ ?_]
  · fin_cases hp <;> rfl
  · fin_cases hp <;> decide
  · rfl

/-- A call of a bare name right inside of a method is recorded by what the name means there, and
next to imports and members of the method those of its class count. So a name that nothing in the
method binds leads to the member of the class with that name, and only if there is none to what the
name means outside of the class. -/
theorem call_in_method (setup : Setup) (path : String)
    {depth depth' line bases keywords body body' decorators : Nat} {isAsync : Bool}
    {c m callee : Node} {className methodName f : String} {usage : Usage} {s s₁ s₂ : State}
    (hc : c.form = .classDef className bases keywords body)
    (hm : m.form = .function methodName isAsync body' decorators)
    (hclass : Comes setup path (.node depth c) s (.node depth' m) s₁)
    (hinside : s₁.ids = symbolId (scopeId s) className :: s.ids)
    (hmethod : Comes setup path (.node depth' m) s₁ (.call line callee) s₂)
    (hids : s₂.ids = symbolId (scopeId s₁) methodName :: s₁.ids)
    (hcallee : callee.form = .name f usage) :
    let owner := symbolId (scopeId s) className
    let caller := symbolId owner methodName
    let registry := s.survey.registry
    let record := recordCall setup line callee caller
    (∃ near far : Table String Binding, near.keys ⊆ importedNamesAll m.children ∧
      far.keys ⊆ importedNamesAll c.children ∧
      visitCall setup line callee s₂ = record (meaningInside registry caller m near
        (meaningInside registry owner c far (Scope.lookup s.scopes f) f) f) s₂) ∧
    (f ∉ importedNamesAll m.children → f ∉ plainNames m → memberNamed? registry caller f = none →
      f ∉ importedNamesAll c.children →
      (∀ id, memberNamed? registry owner f = some id → visitCall setup line callee s₂ =
        emitEdge setup "calls" caller id [("call_line", .int line)] s₂) ∧
      (memberNamed? registry owner f = none →
        visitCall setup line callee s₂ = record (Scope.lookup s.scopes f) s₂)) := by
  intro owner caller registry record
  have hclassName : definedName? c = some className := by rw [definedName?, hc]
  have hmethodName : definedName? m = some methodName := by rw [definedName?, hm]
  have hplain : f ∉ plainNames c := by
    rw [plainNames, Node.params, hc]
    exact List.not_mem_nil
  obtain ⟨far, hfar, houter⟩ := hclass.lookup_inside hclassName rfl hinside
  obtain ⟨near, hnear, hlookup⟩ := hmethod.lookup_inside hmethodName rfl hids
  have hcall := visitCall_of_lookup setup line hcallee hids
  rw [hlookup f, houter f, scopeId_of_ids hinside, hclass.registry_eq] at hcall
  refine ⟨⟨near, far, hnear, hfar, hcall⟩, fun himports hparams hmember hclassImports ↦ ?_⟩
  rw [meaningInside_of_notMem fun h ↦ himports (hnear h), if_neg hparams, hmember,
    meaningInside_of_notMem fun h ↦ hclassImports (hfar h), if_neg hplain] at hcall
  refine ⟨fun id hid ↦ ?_, fun hnone ↦ ?_⟩
  · rw [hcall, hid]
    rfl
  · rw [hcall, hnone]
    rfl

def shopNode (callee : Node) : Node := .mk (.classDef "Shop" 0 0 1) ⟨1, 2⟩ [closingNode callee]

theorem call_in_method_shop : ∃ s₂,
    visitCall scriptSetup 2 (bareName "sell") s₂ =
      emitEdge scriptSetup "calls" "a.py::Shop::close" "a.py::Shop::sell"
      [("call_line", .int 2)] s₂ ∧
    visitCall scriptSetup 2 (bareName "a") s₂ =
      emitEdge scriptSetup "calls" "a.py::Shop::close" "a.py::a" [("call_line", .int 2)] s₂ := by
  have hparts (f : String) :
    parts "a.py" ⟨closingSurvey, [closingFile]⟩ (.node 0 (shopNode (bareName f))) =
      .ok ([.enter "a.py::Shop"] ++ .node 3 (closingNode (bareName f)) :: [.leave]) := rfl
  have hcall (f : String) := call_in_method scriptSetup "a.py" (c := shopNode (bareName f))
    (f := f) rfl rfl
    (.part (hparts f) rfl (.start _ _)) rfl (comes_to_closing scriptSetup rfl rfl) rfl rfl
  have hsell := (hcall "sell").2 (by decide) (by decide) (by decide) (by decide)
  have houter := (hcall "a").2 (by decide) (by decide) (by decide) (by decide)
  exact ⟨_, hsell.1 _ (by decide), houter.2 (by decide)⟩

end Task

end CodeAtlas.Build.References

namespace CodeAtlas.Build

/-- A method that calls a function with the name of another method. -/
def memberSource : Source :=
  ⟨"a.py", "/p/a.py",
    .ok "class Shop:\n    def sell(self):\n        pass\n\n    def close(self):\n        sell()\n"⟩

/-- The other method is taken for the function. -/
theorem member_called_by_bare_name :
    .obj [("edge", .str "calls"), ("from", .str "a.py::Shop::close"),
      ("to", .str "a.py::Shop::sell"),
      ("call_line", .int 6)] ∈ (scriptDraft 0 [memberSource]).edges := by
  decide +kernel

/-- A function that calls what it is given. -/
def hiddenSource : Source :=
  ⟨"a.py", "/p/a.py", .ok "def sell():\n    pass\n\n\ndef close(*sell):\n    sell()\n"⟩

/-- What has the name of its parameter is taken for the parameter. -/
theorem parameter_called_as_function :
    .obj [("edge", .str "calls"), ("from", .str "a.py::close"), ("to", .str "a.py::sell"),
      ("call_line", .int 6)] ∈ (scriptDraft 0 [hiddenSource]).edges := by
  decide +kernel

end CodeAtlas.Build
