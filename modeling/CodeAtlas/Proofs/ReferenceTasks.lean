import CodeAtlas.Proofs.DefinitionSteps

/-!
# The second pass, task by task

A walk of the second pass is cut into tasks. In a given state a task either fails at once or falls
into smaller ones, which are done in order; the smallest add an edge or a ticket, bind a name, or
enter or leave a scope. Consequently each point of a walk is the start of one of its tasks, and what
is kept by the smallest tasks is kept by the whole walk.
-/

namespace CodeAtlas.Build

open Fallible Stepwise Survey
open Script (Node Alias)

variable {n : Node} {P : Survey → Prop} {survey : Survey}
variable {reason scope : String}

lemma depth_le_of_mem {ns : List Node} (h : n ∈ ns) : n.depth ≤ Node.depths ns := by
  induction ns with
  | nil => cases h
  | cons m rest ih =>
    rcases List.mem_cons.1 h with rfl | h
    · exact le_max_left _ _
    · exact (ih h).trans (le_max_right _ _)

lemma mem_children_of_decorators {d : Node} (h : d ∈ n.decorators) : d ∈ n.children := by
  rw [Node.decorators] at h
  split at h
  · exact List.mem_of_mem_drop h
  · exact List.mem_of_mem_drop (List.mem_of_mem_take h)
  · cases h

lemma mem_children_of_bases {b : Node} (h : b ∈ n.bases) : b ∈ n.children := by
  rw [Node.bases] at h
  split at h
  · exact List.mem_of_mem_take h
  · cases h

namespace References

lemma mem_keys_of_importedFile? {path : String} {source : Option String} {level : Nat}
    {file : String}
    (h : importedFile? survey path source level = some file) : file ∈ survey.registry.keys := by
  unfold importedFile? at h
  split at h
  · split at h
    · exact List.mem_of_find?_eq_some h
    · cases h
  · split at h
    · split at h
      · cases h
      · exact List.mem_of_find?_eq_some h
    · cases h

/-- What there is to do at a point of the second pass. -/
inductive Task
  | node (depth : Nat) (n : Node)
  | decorator (owner : String) (n : Node)
  | base (owner : String) (n : Node)
  | call (line : Nat) (callee : Node)
  | importFile (a : Alias)
  | importFrom (source : Option String) (names : List Alias) (level : Nat)
  | imported (file : String) (a : Alias)
  | target (n : Node)
  | link (relation source target : String) (details : List (String × Json))
  | note (kind expression reason scope : String)
  | named (name : String) (b : Binding)
  | enter (id : String)
  | leave

namespace Task

variable {ts : List Task} {link : String → Task} {t u : Task} {kind : String}

/-- How a task is done in the file of the given path. -/
def run (setup : Setup) (path : String) : Task → Tracing Unit
  | .node depth n => visit setup path depth n
  | .decorator owner n => visitDecorator setup owner n
  | .base owner n => visitBase setup owner n
  | .call line callee => visitCall setup line callee
  | .importFile a => visitImport setup a
  | .importFrom source names level => visitImportFrom setup path source names level
  | .imported file a => visitImported setup file a
  | .target n => visitTarget setup n
  | .link relation a b details => emitEdge setup relation a b details
  | .note kind expression reason scope => emitTicket setup kind expression reason scope
  | .named name b => define name b
  | .enter id => References.enter id
  | .leave => References.leave

/-- The smallest tasks. -/
def isStep : Task → Bool
  | .link .. | .note .. | .named .. | .enter _ | .leave => true
  | _ => false

/-- Links to what an expression refers to, or notes that it is unknown. -/
def resolved (s : State) (n : Node) (link : String → Task) (kind reason scope : String) :
    Except Fault (List Task) := do
  match ← resolve s n with
  | some (.symbol id) => return [link id]
  | _ => return [.note kind (← n.display) reason scope]

/-- Links to a registered definition and gives it a name. -/
def imports (s : State) (a : Alias) (id : String) : List Task :=
  [.link "import" (scopeId s) id [], .named (a.asName.getD a.name) (.symbol id)]

/-- What is done for a node and all below it. -/
def nodeParts (s : State) (depth : Nat) : Node → List Task
  | .mk form span children =>
    match form with
    | .classDef name _ _ _ =>
      let id := symbolId (scopeId s) name
      let n : Node := .mk form span children
      if (s.survey.node? id).isSome then
        n.decorators.map (.decorator id) ++ n.bases.map (.base id) ++ .enter id ::
          children.map (.node (depth + 3)) ++ [.leave]
      else []
    | .function name _ _ _ =>
      let id := symbolId (scopeId s) name
      let n : Node := .mk form span children
      if (s.survey.node? id).isSome then
        n.decorators.map (.decorator id) ++ .enter id ::
          ((n.params.toList.flatMap fun p ↦ p.plainParams.filterMap Node.paramName?).map
            (.named · .parameter) ++ children.map (.node (depth + 4))) ++ [.leave]
      else []
    | .call _ =>
      (children.head?.map (.call span.first)).toList ++ children.map (.node (depth + 3))
    | .import_ names => names.map .importFile
    | .importFrom source names level => [.importFrom source names level]
    | .assign _ => (Node.mk form span children).targets.map .target
    | _ => children.map (.node (depth + 2))

/-- What a task falls into in a state. -/
def parts (path : String) (s : State) : Task → Except Fault (List Task)
  | .node depth n => do
    Script.Walk.enter depth
    return nodeParts s depth n
  | .decorator owner n =>
    resolved s n (.link "decorates" · owner []) "decorator_unknown" "Decorator not found" owner
  | .base owner n =>
    resolved s n (.link "extends" owner · []) "inheritance_target_unproven" "Base not found" owner
  | .call line callee =>
    resolved s callee (.link "calls" (scopeId s) · [("call_line", .int line)]) "call_target_unknown"
      "Target not proven" (scopeId s)
  | .importFile a =>
    match fileOf? s.survey a.name with
    | some id => .ok (if (s.survey.node? id).isSome then imports s a id else [])
    | none => .ok [.note "import_module_unknown" a.name "File not found" (scopeId s)]
  | .importFrom source names level =>
    match importedFile? s.survey path source level with
    | some file => .ok (.link "import_from" (scopeId s) file [] :: names.map (.imported file))
    | none =>
      .ok [.note "import_module_unknown" (source.getD "None") "Module not found" (scopeId s)]
  | .imported file a =>
    let symbol := symbolId file a.name
    .ok (if (s.survey.node? symbol).isSome then imports s a symbol
      else [.note "import_symbol_type_unknown" a.name "Symbol missing in target" (scopeId s)])
  | .target n =>
    match n.form with
    | .name name _ =>
      match Scope.lookup s.scopes name with
      | some (.symbol id) =>
        match s.survey.node? id with
        | some entry => do
          if (← entry.need "node_type").same (.str "Variable") then
            return [.link "writes_to" (scopeId s) id []]
          else return []
        | none => .ok []
      | _ => .ok []
    | _ => .ok []
  | _ => .ok []

variable {setup : Setup} {path : String} {s : State}

/-! ## Doing the parts in order -/

def runAll (setup : Setup) (path : String) (ts : List Task) : Tracing Unit :=
  ts.forM (run setup path)

lemma runAll_cons (t : Task) (ts : List Task) : runAll setup path (t :: ts) =
    run setup path t >>= fun _ ↦ runAll setup path ts := rfl

lemma runAll_append (ts us : List Task) : runAll setup path (ts ++ us) =
    runAll setup path ts >>= fun _ ↦ runAll setup path us := by
  induction ts with
  | nil => rfl
  | cons t ts ih =>
    rw [List.cons_append, runAll_cons, ih, runAll_cons, bind_assoc]

lemma runAll_singleton (t : Task) : runAll setup path [t] = run setup path t :=
  bind_pure_unit

lemma runAll_map {α : Type} (f : α → Task) (xs : List α) :
    runAll setup path (xs.map f) = xs.forM fun x ↦ run setup path (f x) := by
  induction xs with
  | nil => rfl
  | cons x xs ih =>
    rw [List.map_cons, runAll_cons, ih]
    rfl

lemma visitAll_eq (depth : Nat) (ns : List Node) :
    visitAll setup path depth ns = runAll setup path (ns.map (.node depth)) := by
  induction ns with
  | nil => rw [visitAll]; rfl
  | cons n rest ih =>
    rw [visitAll, ih]
    rfl

/-- In a state, a step of the walk fails or does some tasks in order. -/
def Falls (setup : Setup) (path : String) (x : Tracing Unit) (s : State)
    (p : Except Fault (List Task)) : Prop :=
  x s = ((liftM p : Tracing (List Task)) >>= runAll setup path) s

namespace Falls

variable {p : Except Fault (List Task)} {x : Tracing Unit} {s' : State}

lemma of_eq (h : x = runAll setup path ts) : Falls setup path x s (.ok ts) := congrFun h s

lemma pure : Falls setup path (Pure.pure ()) s (.ok []) := rfl

lemma of_run (t : Task) : Falls setup path (run setup path t) s (.ok [t]) :=
  of_eq (runAll_singleton t).symm

lemma get_bind {f : State → Tracing Unit} (h : Falls setup path (f s) s p) :
    Falls setup path (get >>= f) s p := h

lemma lift_bind {α : Type} {x : Except Fault α} {f : α → Tracing Unit}
    {g : α → Except Fault (List Task)} (h : ∀ a, Falls setup path (f a) s (g a)) :
    Falls setup path ((liftM x : Tracing α) >>= f) s (x >>= g) := by
  cases x with
  | error e => rfl
  | ok a => exact h a

lemma of_ok (h : Falls setup path x s p) (hrun : x s = .ok () s') :
    ∃ ts, p = .ok ts ∧ runAll setup path ts s = .ok () s' := by
  have hdone : ((liftM p : Tracing (List Task)) >>= runAll setup path) s = .ok () s' :=
    (show x s = _ from h) ▸ hrun
  cases p with
  | error e => cases hdone
  | ok ts => exact ⟨ts, rfl, hdone⟩

lemma run_of_ok (h : Falls setup path x s p) (hts : p = .ok ts)
    (hdone : runAll setup path ts s = .ok () s') : x s = .ok () s' := by
  subst hts
  exact (show x s = _ from h).trans hdone

lemma after_eq (h : Falls setup path x s p) :
    after x s = after ((liftM p : Tracing (List Task)) >>= runAll setup path) s := by
  unfold after
  rw [show x s = _ from h]

end Falls

/-- A step that follows an expression is one link, or one note with the expression written out. -/
lemma falls_resolved {f : Option String → Tracing Unit}
    (hsome : ∀ id, f (some id) = run setup path (link id))
    (hnone : f none = (liftM n.display : Tracing String) >>= fun text ↦
      run setup path (.note kind text reason scope)) :
    Falls setup path (target? n >>= f) s (resolved s n link kind reason scope) := by
  rw [target?, bind_assoc]
  refine .get_bind ?_
  rw [bind_assoc]
  refine .lift_bind fun found ↦ ?_
  have hunknown : Falls setup path (f none) s
      (n.display >>= fun text ↦ .ok [.note kind text reason scope]) := by
    rw [hnone]
    exact .lift_bind fun text ↦ .of_run _
  rcases found with _ | ⟨id⟩ | _
  · exact hunknown
  · show Falls setup path (f (some id)) s (.ok [link id])
    rw [hsome]
    exact .of_run _
  · exact hunknown

lemma runAll_imports (a : Alias) (id : String) : runAll setup path (imports s a id) =
    emitEdge setup "import" (scopeId s) id [] >>= fun _ ↦ define (a.asName.getD a.name)
    (.symbol id) := by
  rfl

lemma falls_importFile (a : Alias) :
    Falls setup path (visitImport setup a) s (parts path s (.importFile a)) := by
  rw [visitImport, parts]
  refine .get_bind ?_
  cases fileOf? s.survey a.name with
  | none => exact .of_run (.note _ _ _ _)
  | some id =>
    dsimp only
    split
    · exact .of_eq (runAll_imports a id).symm
    · exact .pure

lemma falls_importFrom (source : Option String) (names : List Alias) (level : Nat) :
    Falls setup path (visitImportFrom setup path source names level) s
      (parts path s (.importFrom source names level)) := by
  rw [visitImportFrom, parts]
  refine .get_bind ?_
  cases importedFile? s.survey path source level with
  | none => exact .of_run (.note _ _ _ _)
  | some file =>
    refine .of_eq ?_
    rw [runAll_cons, runAll_map]
    rfl

lemma falls_imported (file : String) (a : Alias) :
    Falls setup path (visitImported setup file a) s (parts path s (.imported file a)) := by
  rw [visitImported, parts]
  refine .get_bind ?_
  dsimp only
  split
  · exact .of_eq (runAll_imports a _).symm
  · exact .of_run (.note _ _ _ _)

lemma falls_target (n : Node) :
    Falls setup path (visitTarget setup n) s (parts path s (.target n)) := by
  obtain ⟨form, span, children⟩ := n
  rw [visitTarget, parts]
  cases form with
  | name name usage =>
    refine .get_bind ?_
    dsimp only [Node.form]
    rcases Scope.lookup s.scopes name with _ | ⟨id⟩ | _
    · exact .pure
    · dsimp only
      cases s.survey.node? id with
      | none => exact .pure
      | some entry =>
        refine .lift_bind fun type ↦ ?_
        split
        · exact .of_run (.link _ _ _ _)
        · exact .pure
    · exact .pure
  | _ => exact .pure

lemma falls_node (depth : Nat) (n : Node) :
    Falls setup path (visit setup path depth n) s (parts path s (.node depth n)) := by
  obtain ⟨form, span, children⟩ := n
  refine .lift_bind fun _ ↦ ?_
  cases form with
  | classDef _ _ _ _ | function _ _ _ _ =>
    refine .get_bind ?_
    rw [nodeParts]
    dsimp only
    split
    · refine .of_eq ?_
      simp only [runAll_append, runAll_cons, runAll_map, visitAll_eq, bind_assoc]
      rfl
    · exact .pure
  | call count =>
    refine .of_eq ?_
    rw [nodeParts]
    rw [runAll_append, visitAll_eq]
    cases children.head? with
    | none => rfl
    | some callee =>
      rw [Option.map_some, Option.toList_some, runAll_singleton]
      rfl
  | import_ names => exact .of_eq (runAll_map .importFile names).symm
  | importFrom source names level => exact .of_run (.importFrom source names level)
  | assign count => exact .of_eq (runAll_map .target _).symm
  | _ => exact .of_eq (visitAll_eq _ _)

/-- A task is done by doing what it falls into, in order. -/
lemma falls_run (ht : t.isStep = false) (s : State) :
    Falls setup path (t.run setup path) s (t.parts path s) := by
  cases t with
  | node depth n => exact falls_node depth n
  | decorator owner n => exact falls_resolved (fun _ ↦ rfl) rfl
  | base owner n => exact falls_resolved (fun _ ↦ rfl) rfl
  | call line callee => exact .get_bind (falls_resolved (fun _ ↦ rfl) rfl)
  | importFile a => exact falls_importFile a
  | importFrom source names level => exact falls_importFrom source names level
  | imported file a => exact falls_imported file a
  | target n => exact falls_target n
  | _ => cases ht

/-! ## What the parts are -/

/-- The definition for which a task is done. -/
def owner? : Task → Option String
  | .decorator owner _ => some owner
  | .base owner _ => some owner
  | _ => none

/-- The relation of the edges that a task adds by itself, and the kind of its tickets, if there are
any. -/
def outcome? : Task → Option (String × String)
  | .decorator .. => some ("decorates", "decorator_unknown")
  | .base .. => some ("extends", "inheritance_target_unproven")
  | .call .. => some ("calls", "call_target_unknown")
  | .importFile _ => some ("import", "import_module_unknown")
  | .imported .. => some ("import", "import_symbol_type_unknown")
  | .importFrom .. => some ("import_from", "import_module_unknown")
  | .target _ => some ("writes_to", "")
  | _ => none

/-- The import for which a task is done. -/
def alias? : Task → Option Alias
  | .importFile a => some a
  | .imported _ a => some a
  | _ => none

/-- An id that a task is given in a state. -/
inductive Given (s : State) (t : Task) : String → Prop
  | scope : Given s t (scopeId s)
  | owner {id : String} (h : t.owner? = some id) : Given s t id
  | followed {n : Node} {id : String} (h : resolve s n = .ok (some (.symbol id))) : Given s t id
  | found {id : String} (h : id ∈ s.survey.registry.keys) : Given s t id

/-- One of the parts of a task in a state. -/
inductive Part (s : State) : Task → Task → Prop
  | child {depth steps : Nat} {n m : Node} (h : m ∈ n.children) (hsteps : steps ≤ 4) :
      Part s (.node depth n) (.node (depth + steps) m)
  | decorator {depth : Nat} {n m : Node} {id : String} (hm : m ∈ n.children)
      (h : (s.survey.node? id).isSome = true) : Part s (.node depth n) (.decorator id m)
  | base {depth : Nat} {n m : Node} {id : String} (hm : m ∈ n.children)
      (h : (s.survey.node? id).isSome = true) : Part s (.node depth n) (.base id m)
  | enter {depth : Nat} {n : Node} {id : String} (h : (s.survey.node? id).isSome = true) :
      Part s (.node depth n) (.enter id)
  | param {depth : Nat} {n : Node} {name : String} : Part s (.node depth n) (.named name .parameter)
  | leave {depth : Nat} {n : Node} : Part s (.node depth n) .leave
  | call {depth line : Nat} {n m : Node} (h : m ∈ n.children) :
      Part s (.node depth n) (.call line m)
  | importFile {depth : Nat} {n : Node} {a : Alias} : Part s (.node depth n) (.importFile a)
  | importFrom {depth level : Nat} {n : Node} {source : Option String} {names : List Alias} :
      Part s (.node depth n) (.importFrom source names level)
  | target {depth : Nat} {n m : Node} : Part s (.node depth n) (.target m)
  | imported {source : Option String} {names : List Alias} {level : Nat} {file : String} {a : Alias}
      (h : a ∈ names) : Part s (.importFrom source names level) (.imported file a)
  | link {t : Task} {relation kind a b : String} {details : List (String × Json)}
      (ht : t.outcome? = some (relation, kind)) (ha : Given s t a) (hb : Given s t b)
      (hdetails : Survey.AreDetails details) : Part s t (.link relation a b details)
  | note {t : Task} {relation kind expression reason scope : String}
      (ht : t.outcome? = some (relation, kind)) : Part s t (.note kind expression reason scope)
  | named {t : Task} {a : Alias} {id : String} (ht : t.alias? = some a)
      (h : (s.survey.node? id).isSome = true) :
      Part s t (.named (a.asName.getD a.name) (.symbol id))

lemma of_resolved (h : resolved s n link kind reason scope = .ok ts) :
    (∃ id, resolve s n = .ok (some (.symbol id)) ∧ ts = [link id]) ∨
      ∃ text, ts = [.note kind text reason scope] := by
  obtain ⟨found, hfound, h⟩ := bind_eq_ok.1 h
  have hnote (h : n.display >>= (fun text ↦ .ok [.note kind text reason scope]) = .ok ts) :
      ∃ text, ts = [.note kind text reason scope] := by
    obtain ⟨text, -, h⟩ := bind_eq_ok.1 h
    exact ⟨text, (Except.ok.inj h).symm⟩
  rcases found with _ | ⟨id⟩ | _
  · exact .inr (hnote h)
  · exact .inl ⟨id, hfound, (Except.ok.inj h).symm⟩
  · exact .inr (hnote h)

lemma part_of_resolved {relation : String} (ht : t.outcome? = some (relation, kind))
    (hlink : ∀ id, resolve s n = .ok (some (.symbol id)) → Part s t (link id))
    (h : resolved s n link kind reason scope = .ok ts) (hu : u ∈ ts) : Part s t u := by
  rcases of_resolved h with ⟨id, hid, rfl⟩ | ⟨text, rfl⟩
  · obtain rfl := List.mem_singleton.1 hu
    exact hlink id hid
  · obtain rfl := List.mem_singleton.1 hu
    exact .note ht

lemma part_of_imports (ht : t.outcome? = some ("import", kind)) {a : Alias} (ha : t.alias? = some a)
    {id : String} (hid : (s.survey.node? id).isSome = true) (hu : u ∈ imports s a id) :
    Part s t u := by
  rw [imports, List.mem_pair] at hu
  rcases hu with rfl | rfl
  · exact .link ht .scope (.found (mem_keys_of_node? hid)) areDetails_nil
  · exact .named ha hid

lemma part_of_nodeParts {depth : Nat} (hu : u ∈ nodeParts s depth n) :
    Part s (.node depth n) u := by
  obtain ⟨form, span, children⟩ := n
  have hchildren {steps : Nat} (hsteps : steps ≤ 4)
    (hu : u ∈ children.map (.node (depth + steps))) :
      Part s (.node depth (.mk form span children)) u := by
    obtain ⟨m, hm, rfl⟩ := List.mem_map.1 hu
    exact .child hm hsteps
  cases form with
  | classDef name bases keywords body =>
    rw [nodeParts] at hu
    split at hu
    next hid =>
      simp only [List.mem_append, List.mem_cons, List.mem_map, List.not_mem_nil, or_false] at hu
      rcases hu with ((⟨m, hm, rfl⟩ | ⟨m, hm, rfl⟩) | rfl | ⟨m, hm, rfl⟩) | rfl
      · exact .decorator (mem_children_of_decorators hm) hid
      · exact .base (mem_children_of_bases hm) hid
      · exact .enter hid
      · exact .child hm (by omega)
      · exact .leave
    next => cases hu
  | function name isAsync body decorators =>
    rw [nodeParts] at hu
    split at hu
    next hid =>
      simp only [List.mem_append, List.mem_cons, List.mem_map, List.not_mem_nil, or_false] at hu
      rcases hu with (⟨m, hm, rfl⟩ | rfl | ⟨name, -, rfl⟩ | ⟨m, hm, rfl⟩) | rfl
      · exact .decorator (mem_children_of_decorators hm) hid
      · exact .enter hid
      · exact .param
      · exact .child hm (by omega)
      · exact .leave
    next => cases hu
  | call count =>
    rcases List.mem_append.1 hu with hu | hu
    · obtain ⟨m, hm, rfl⟩ := Option.map_eq_some_iff.1 (Option.mem_toList.1 hu)
      exact .call (List.mem_of_mem_head? hm)
    · exact hchildren (by omega) hu
  | import_ names =>
    obtain ⟨a, -, rfl⟩ := List.mem_map.1 hu
    exact .importFile
  | importFrom source names level =>
    obtain rfl := List.mem_singleton.1 hu
    exact .importFrom
  | assign count =>
    obtain ⟨m, -, rfl⟩ := List.mem_map.1 hu
    exact .target
  | _ => exact hchildren (by omega) hu

/-- All parts of a task are of the kinds that there are. -/
lemma part_of_mem (h : t.parts path s = .ok ts) (hu : u ∈ ts) : Part s t u := by
  cases t with
  | node depth n =>
    obtain ⟨-, -, h⟩ := bind_eq_ok.1 h
    obtain rfl := pure_eq_ok.1 h
    exact part_of_nodeParts hu
  | decorator owner n =>
    exact part_of_resolved rfl (fun id hid ↦ .link rfl (.followed hid) (.owner rfl) areDetails_nil)
      h hu
  | base owner n =>
    exact part_of_resolved rfl (fun id hid ↦ .link rfl (.owner rfl) (.followed hid) areDetails_nil)
      h hu
  | call line callee =>
    exact part_of_resolved rfl (fun id hid ↦
      .link rfl .scope (.followed hid) (by simp [AreDetails, Table.keys])) h hu
  | importFile a =>
    rw [parts] at h
    split at h
    next id hfile =>
      cases h
      split at hu
      next hid => exact part_of_imports rfl rfl hid hu
      next => cases hu
    next =>
      cases h
      obtain rfl := List.mem_singleton.1 hu
      exact .note rfl
  | importFrom source names level =>
    rw [parts] at h
    split at h
    next file hfile =>
      cases h
      rcases List.mem_cons.1 hu with rfl | hu
      · exact .link rfl .scope (.found (mem_keys_of_importedFile? hfile)) areDetails_nil
      · obtain ⟨a, ha, rfl⟩ := List.mem_map.1 hu
        exact .imported ha
    next =>
      cases h
      obtain rfl := List.mem_singleton.1 hu
      exact .note rfl
  | imported file a =>
    cases h
    split at hu
    next hid => exact part_of_imports rfl rfl hid hu
    next =>
      obtain rfl := List.mem_singleton.1 hu
      exact .note rfl
  | target n =>
    rw [parts] at h
    split at h
    next name usage hform =>
      split at h
      next id hlookup =>
        split at h
        next entry hentry =>
          obtain ⟨type, -, h⟩ := bind_eq_ok.1 h
          split at h
          · obtain rfl := pure_eq_ok.1 h
            obtain rfl := List.mem_singleton.1 hu
            exact .link rfl .scope (.found (mem_keys_of_node? (hentry ▸ rfl))) areDetails_nil
          · obtain rfl := pure_eq_ok.1 h
            cases hu
        next => cases h; cases hu
      next => cases h; cases hu
    next => cases h; cases hu
  | _ => cases h; cases hu

/-! ## From the smallest tasks to all -/

lemma keeps_onSurvey_of {step : Surveying Unit} (h : Keeps P step) :
    Keeps (fun s ↦ P s.survey) (onSurvey step) := by
  intro s hs
  rw [after, onSurvey]
  cases hstep : step s.survey with
  | ok _ survey => exact h.of_ok hs hstep
  | error _ survey => exact h.of_error hs hstep

/-- How far a task is from the smallest ones. -/
def rank : Task → Nat
  | .node _ n => n.depth + 3
  | .importFrom .. => 2
  | .decorator .. | .base .. | .call .. | .importFile _ | .imported .. | .target _ => 1
  | .link .. | .note .. | .named .. | .enter _ | .leave => 0

lemma rank_pos {outcome : String × String} (h : t.outcome? = some outcome) : 0 < t.rank := by
  cases t with
  | node | importFrom => exact Nat.succ_pos _
  | decorator | base | call | importFile | imported | target => exact Nat.one_pos
  | _ => cases h

lemma Part.rank_lt (h : Part s t u) : u.rank < t.rank := by
  cases h with
  | @child depth steps n m hm =>
    obtain ⟨form, span, children⟩ := n
    have hdepth : m.depth ≤ Node.depths children := depth_le_of_mem hm
    rw [rank, rank, Node.depth]
    omega
  | link ht | note ht => exact rank_pos ht
  | named ht =>
    cases t with
    | importFile | imported => exact Nat.one_pos
    | _ => cases ht
  | _ => simp only [rank]; omega

/-- What holds of a task whenever it holds of all its parts, holds of every task. -/
lemma induction_on {motive : Task → Prop} (t : Task)
    (h : ∀ t, (∀ s u, Part s t u → motive u) → motive t) : motive t := by
  induction hrank : t.rank using Nat.strong_induction_on generalizing t with
  | _ rank ih =>
    subst hrank
    exact h t fun s u hu ↦ ih u.rank hu.rank_lt u rfl

/-- What the smallest tasks of a kind keep, all tasks of that kind keep, if the parts of each are of
that kind. -/
lemma keeps_run {P : State → Prop} {C : Task → Prop}
    (hparts : ∀ s t u, P s → C t → Part s t u → C u)
    (hsteps : ∀ t, C t → t.isStep = true → Keeps P (t.run setup path)) (t : Task) :
    C t → Keeps P (t.run setup path) := by
  induction t using induction_on with
  | h t ih =>
    intro ht s hs
    cases hstep : t.isStep with
    | true => exact hsteps t ht hstep s hs
    | false =>
      rw [(falls_run hstep s).after_eq]
      refine after_lift_bind hs fun ts hts ↦ ?_
      refine Keeps.forM (fun u hu ↦ ?_) s hs
      have hpart := part_of_mem hts hu
      exact ih s u hpart (hparts s t u hs ht hpart)

/-- A task whose details leave an edge's kind and its ends alone. -/
def Tidy : Task → Prop
  | .link _ _ _ details => Survey.AreDetails details
  | _ => True

lemma Part.tidy (h : Part s t u) : u.Tidy := by
  cases h with
  | link _ _ _ hdetails => exact hdetails
  | _ => trivial

lemma keeps_run_survey (h : KeepsRecords setup P) (ht : t.Tidy) :
    Keeps (fun s ↦ P s.survey) (t.run setup path) := by
  refine keeps_run (C := Tidy) (fun _ _ _ _ _ hpart ↦ hpart.tidy) (fun t ht hstep ↦ ?_) t ht
  cases t with
  | link relation a b details => exact keeps_onSurvey_of (h.edge relation a b details ht)
  | note kind expression reason scope =>
    exact keeps_onSurvey_of (h.ticket kind expression reason scope _)
  | named name b =>
    refine .of_modify fun s hs ↦ ?_
    split <;> exact hs
  | enter id =>
    exact .get_bind fun s hs ↦ after_lift_bind (P := fun s : State ↦ P s.survey) hs fun _ _ ↦ hs
  | leave => exact .of_modify fun _ hs ↦ hs
  | _ => cases hstep

end Task

/-! ## Whole files -/

lemma after_visitFile {source : Source} {scope : Scope Binding}
    (h : scopeOf survey (fileId source.name) = .ok scope) (setup : Setup) (n : Node) :
    after (visitFile setup source n) survey =
      (after (visit setup source.name 0 n) ⟨survey, [scope]⟩).survey := by
  rw [after, after, visitFile, h]
  cases hvisit : visit setup source.name 0 n ⟨survey, [scope]⟩ <;> simp only [hvisit]

variable {setup : Setup} (h : KeepsRecords setup P)
include h

lemma keeps_visitFile_of_records (source : Source) (n : Node) :
    Keeps P (visitFile setup source n) := by
  intro survey hsurvey
  cases hscope : scopeOf survey (fileId source.name) with
  | error f =>
    rw [after, visitFile, hscope]
    exact hsurvey
  | ok scope =>
    rw [after_visitFile hscope]
    exact Task.keeps_run_survey (t := .node 0 n) h trivial ⟨survey, [scope]⟩ hsurvey

lemma addReferences_of_records (hsurvey : P survey) (source : Source) :
    P (survey.addReferences setup source) :=
  walk_of_after h.log (after_lift_bind hsurvey fun parsed _ ↦
    keeps_visitFile_of_records h source parsed.2 survey hsurvey) _ _

/-- What holds after the first pass and is kept by edges, tickets and logs holds in the end. -/
lemma surveySources_of_records {issued : Nat} {sources : List Source}
    (hfirst : P (firstPass setup issued sources)) : P (surveySources setup issued sources) :=
  List.foldlRecOn sources _ hfirst fun _ hs source _ ↦ addReferences_of_records h hs source

end References

end CodeAtlas.Build
