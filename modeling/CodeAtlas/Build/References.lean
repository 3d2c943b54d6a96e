import CodeAtlas.Build.Definitions
import CodeAtlas.Build.Scan

/-!
# Second pass: references

A walk over a syntax tree that follows names to registered definitions: decorators, bases, calls,
imports and assignments. Names are bound in scopes and looked up in the innermost one first. A
reference becomes an edge only if its target is registered; otherwise it gets a ticket. The
right-hand side of an assignment is not entered.

All sources are walked twice: first every definition is registered, then every reference is
followed. A source that cannot be read, or on which a walk fails, is logged, and what the walk has
found so far is kept.
-/

namespace CodeAtlas.Build

structure Scope (β : Type) where
  id : String
  symbols : Table String β := []

namespace Scope

variable {β : Type}

def define (s : Scope β) (name : String) (value : β) : Scope β :=
  { s with symbols := s.symbols.put name value }

/-- What a name is bound to in a chain of scopes, the innermost first. -/
def lookup (chain : List (Scope β)) (name : String) : Option β :=
  chain.findSome? fun s ↦ s.symbols.get? name

end Scope

structure LinkedScope (β : Type) where
  parent : Option Nat
  scope : Scope β

namespace LinkedScope

variable {β : Type}

/-- The scopes from one of a list outwards. -/
def chain (scopes : List (LinkedScope β)) : (steps : Nat) → (place : Nat) → List (Scope β)
  | 0, _ => []
  | steps + 1, place =>
    match scopes[place]? with
    | none => []
    | some s =>
      s.scope ::
        match s.parent with
        | some p => chain scopes steps p
        | none => []

def lookup (scopes : List (LinkedScope β)) (place : Nat) (name : String) : Option β :=
  Scope.lookup (chain scopes scopes.length place) name

def define (scopes : List (LinkedScope β)) (place : Nat) (name : String) (value : β) : List (LinkedScope β) :=
  scopes.modify place fun s ↦ { s with scope := s.scope.define name value }

end LinkedScope
open Script (Node Form Alias)

namespace References

/-- What a name is bound to: a registered symbol, or a parameter, which stands for nothing known. -/
inductive Binding
  | symbol (id : String)
  | parameter
deriving DecidableEq, Repr

/-- A survey with the scopes around the visited node, the innermost first. -/
structure State where
  survey : Survey
  scopes : List (Scope Binding)

abbrev Tracing := EStateM Fault State

def onSurvey (step : Surveying Unit) : Tracing Unit := fun s ↦
  match step s.survey with
  | .ok a survey => .ok a { s with survey }
  | .error f survey => .error f { s with survey }

def scopeId (s : State) : String := (s.scopes.head?.map Scope.id).getD ""

def define (name : String) (b : Binding) : Tracing Unit :=
  modify fun s ↦
    match s.scopes with
    | [] => s
    | scope :: rest => { s with scopes := scope.define name b :: rest }

/-- The name under which a registered symbol stands directly below a scope. -/
def memberOf? (scope : String) (entry : String × Json) : Except Fault (Option (String × String)) :=
  match Text.after? (scope ++ "::") entry.1 with
  | some rest =>
    if Text.occursIn "::" rest then .ok none
    else do
      match ← entry.2.need "name" with
      | .str name => return some (name, entry.1)
      | _ => return none
  | none => .ok none

def scopeOf (survey : Survey) (id : String) : Except Fault (Scope Binding) := do
  let members ← survey.registry.filterMapM (memberOf? id)
  return members.foldl (fun scope (name, target) ↦ scope.define name (.symbol target)) { id }

def enter (id : String) : Tracing Unit := do
  let scope ← scopeOf (← get).survey id
  modify fun s ↦ { s with scopes := scope :: s.scopes }

def leave : Tracing Unit := modify fun s ↦ { s with scopes := s.scopes.tail }

def emitEdge (setup : Setup) (relation source target : String)
    (details : List (String × Json)) : Tracing Unit :=
  onSurvey (Survey.emitEdge setup relation source target details)

def emitTicket (setup : Setup) (kind expression reason scope : String) : Tracing Unit :=
  onSurvey (Survey.emitTicket setup kind expression reason scope)

def enclosingClass? (survey : Survey) : List (Scope Binding) → Except Fault (Option String)
  | [] => .ok none
  | scope :: rest =>
    match survey.node? scope.id with
    | some node => do
      if (← node.need "node_type").same "Class" then return some scope.id
      else enclosingClass? survey rest
    | none => enclosingClass? survey rest

def member? (survey : Survey) (id name : String) : Option Binding :=
  let candidate := symbolId id name
  (survey.node? candidate).map fun _ ↦ .symbol candidate

/-- A member of the enclosing class, where the expression names the receiver. -/
def receiverMember? (s : State) (value : Node) (name : String) : Except Fault (Option Binding) :=
  match value.form with
  | .name "self" _ => do
    match ← enclosingClass? s.survey s.scopes with
    | some id => return member? s.survey id name
    | none => return none
  | _ => .ok none

def resolve (s : State) : Node → Except Fault (Option Binding)
  | .mk (.name id _) _ _ => .ok (Scope.lookup s.scopes id)
  | .mk (.attribute name _) _ [value] => do
    match ← resolve s value with
    | some (.symbol id) =>
      match member? s.survey id name with
      | some b => return some b
      | none => receiverMember? s value name
    | _ => receiverMember? s value name
  | _ => .ok none

/-- The registered symbol that an expression refers to. -/
def target? (n : Node) : Tracing (Option String) := do
  match ← resolve (← get) n with
  | some (.symbol id) => return some id
  | _ => return none

def visitDecorator (setup : Setup) (owner : String) (n : Node) : Tracing Unit := do
  match ← target? n with
  | some id => emitEdge setup "decorates" id owner []
  | none => emitTicket setup "decorator_unknown" (← n.display) "Decorator not found" owner

def visitBase (setup : Setup) (owner : String) (n : Node) : Tracing Unit := do
  match ← target? n with
  | some id => emitEdge setup "extends" owner id []
  | none => emitTicket setup "inheritance_target_unproven" (← n.display) "Base not found" owner

def visitCall (setup : Setup) (line : Nat) (callee : Node) : Tracing Unit := do
  let caller := scopeId (← get)
  match ← target? callee with
  | some id => emitEdge setup "calls" caller id [("call_line", .int line)]
  | none => emitTicket setup "call_target_unknown" (← callee.display) "Target not proven" caller

/-- The registered file that a dotted name means: the first whose path ends in it. -/
def fileOf? (survey : Survey) (name : String) : Option String :=
  let path := Text.replace "." "/" name ++ ".py"
  survey.registry.keys.find? fun id ↦ id == path || Text.endsWith id ("/" ++ path)

def visitImport (setup : Setup) (a : Alias) : Tracing Unit := do
  let s ← get
  match fileOf? s.survey a.name with
  | some id =>
    if (s.survey.node? id).isSome then
      emitEdge setup "import" (scopeId s) id []
      define (a.asName.getD a.name) (.symbol id)
  | none => emitTicket setup "import_module_unknown" a.name "File not found" (scopeId s)

def importedFile? (survey : Survey) (path : String) (source : Option String) (level : Nat) : Option String :=
  if level = 0 then
    match source with
    | some name => fileOf? survey name
    | none => none
  else
    match relativeImport path level source with
    | some guess =>
      if guess == "" then none else survey.registry.keys.find? (· == guess ++ ".py")
    | none => none

def visitImported (setup : Setup) (file : String) (a : Alias) : Tracing Unit := do
  let s ← get
  let symbol := symbolId file a.name
  if (s.survey.node? symbol).isSome then
    emitEdge setup "import" (scopeId s) symbol []
    define (a.asName.getD a.name) (.symbol symbol)
  else
    emitTicket setup "import_symbol_type_unknown" a.name "Symbol missing in target" (scopeId s)

def visitImportFrom (setup : Setup) (path : String) (source : Option String)
    (names : List Alias) (level : Nat) : Tracing Unit := do
  let s ← get
  match importedFile? s.survey path source level with
  | some file =>
    emitEdge setup "import_from" (scopeId s) file []
    names.forM (visitImported setup file)
  | none =>
    emitTicket setup "import_module_unknown" (source.getD "None") "Module not found" (scopeId s)

def visitTarget (setup : Setup) (n : Node) : Tracing Unit := do
  match n.form with
  | .name name _ =>
    let s ← get
    match Scope.lookup s.scopes name with
    | some (.symbol id) =>
      match s.survey.node? id with
      | some node =>
        if (← node.need "node_type").same "Variable" then
          emitEdge setup "writes_to" (scopeId s) id []
      | none => pure ()
    | _ => pure ()
  | _ => pure ()

def defineParams (n : Node) : Tracing Unit :=
  (n.params.toList.flatMap fun p ↦ p.plainParams.filterMap Node.paramName?).forM (define · .parameter)

mutual

/-- Follows the references of a tree in the file of the given path, at a depth of the walk. -/
def visit (setup : Setup) (path : String) (depth : Nat) : Node → Tracing Unit
  | .mk form span children => do
    Script.Walk.enter depth
    match form with
    | .classDef name _ _ _ =>
      let s ← get
      let id := symbolId (scopeId s) name
      if (s.survey.node? id).isSome then
        let n : Node := .mk form span children
        n.decorators.forM (visitDecorator setup id)
        n.bases.forM (visitBase setup id)
        enter id
        visitAll setup path (depth + 3) children
        leave
    | .function name _ _ _ =>
      let s ← get
      let id := symbolId (scopeId s) name
      if (s.survey.node? id).isSome then
        let n : Node := .mk form span children
        n.decorators.forM (visitDecorator setup id)
        enter id
        defineParams n
        visitAll setup path (depth + 4) children
        leave
    | .call _ =>
      children.head?.forM (visitCall setup span.first)
      visitAll setup path (depth + 3) children
    | .import_ names => names.forM (visitImport setup)
    | .importFrom source names level => visitImportFrom setup path source names level
    | .assign _ => (Node.mk form span children).targets.forM (visitTarget setup)
    | _ => visitAll setup path (depth + 2) children

def visitAll (setup : Setup) (path : String) (depth : Nat) : List Node → Tracing Unit
  | [] => pure ()
  | n :: rest => do
    visit setup path depth n
    visitAll setup path depth rest

end

def visitFile (setup : Setup) (source : Source) (n : Node) : Surveying Unit := fun survey ↦
  match scopeOf survey (fileId source.name) with
  | .error f => .error f survey
  | .ok scope =>
    match visit setup source.name 0 n ⟨survey, [scope]⟩ with
    | .ok _ s => .ok () s.survey
    | .error f s => .error f s.survey

end References
/-- One walk over a source; a failure is logged under the given word. -/
def Survey.walk (word : String) (source : Source) (step : Surveying Unit) (s : Survey) : Survey :=
  match step s with
  | .ok _ s => s
  | .error f s =>
    { s with draft := s.draft.addLog (.obj [(word, .str f.message), ("file", .str source.path)]) }

def Survey.addDefinitions (setup : Setup) (s : Survey) (source : Source) : Survey :=
  s.walk "error" source do
    let (text, n) ← source.tree
    Definitions.visitFile setup source text n

def Survey.addReferences (setup : Setup) (s : Survey) (source : Source) : Survey :=
  s.walk "error_pass2" source do
    let (_, n) ← source.tree
    References.visitFile setup source n

/-- The survey of a list of sources, with tickets numbered after those already issued. -/
def surveySources (setup : Setup) (issued : Nat) (sources : List Source) : Survey :=
  let defined := sources.foldl (Survey.addDefinitions setup) { draft := { issued } }
  sources.foldl (Survey.addReferences setup) defined

def buildScriptGraph (c : Configuration) (sourceRoot out : String) : Command Unit := do
  let root ← Command.resolve (Path.ofText sourceRoot)
  let (instructions, mapping, edges) ← c.load
  let setup : Setup := ⟨← Schema.ofDocuments mapping edges, instructions⟩
  let (directory, files) ← chooseFiles c.rules root "*.py"
  Command.say s!"Scanning {files.length} files..."
  let session ← get
  let sources := files.map (sourceAt session.tree directory)
  let draft := (surveySources setup session.issued sources).draft
  set { session with issued := draft.issued }
  let builderVersion ← builderVersion instructions
  let schemaVersion ← ((← mapping.getD "_meta" (.obj [])).getD "supported_core_schema" "unknown")
  writeGraph (Path.ofText out) (draft.document
    [("builder", .str (Language.program .python)), ("builder_version", builderVersion),
     ("schema_version", schemaVersion), ("generated_at", .str session.now)])
  Command.say s!"Done. {draft.nodes.length} nodes, {draft.edges.length} edges."

end CodeAtlas.Build
