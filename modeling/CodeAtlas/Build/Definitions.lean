import CodeAtlas.Build.Registry
import CodeAtlas.Digest.Md5
import CodeAtlas.Script.Shown
import CodeAtlas.Script.Statement

/-!
# First pass: definitions

A walk over a syntax tree that registers the file, its classes, functions and variables, and links
each to the definition around it. What the core schema has no place for, such as a function inside a
function, is not entered and gets a ticket. What there is to do is a list of steps that is read off
the tree alone; it registers a node, adds an edge, writes a ticket, or fails. Only a variable
depends on what has been registered before, since it counts once.
-/

namespace CodeAtlas.Build

open Script (Node Form)

namespace Definitions

def lines (n : Node) : List (String × Json) :=
  [("line_start", .int n.span.first), ("line_end", .int n.span.last)]

/-- The documentation text of a definition, unless it is empty. -/
def documentation (n : Node) : List (String × Json) :=
  match n.docstring? with
  | some text => if text == "" then [] else [("docstring", .str text)]
  | none => []

def defaultText (n : Node) : Except Fault String :=
  match n.form with
  | .constant c => c.display
  | .name id _ => .ok id
  | _ => .ok "<complex>"

/-- How a signature shows a decorator; some shapes are left out. -/
def decoratorText? (n : Node) : Option String :=
  match n with
  | .mk (.name id _) _ _ => some ("@" ++ id)
  | .mk (.call _) _ (.mk (.name id _) _ _ :: _) => some ("@" ++ id ++ "(...)")
  | .mk (.call _) _ (.mk (.attribute name _) _ _ :: _) => some ("@" ++ name ++ "(...)")
  | .mk (.call _) _ _ => some "@<complex_call>"
  | .mk (.attribute name _) _ _ => some ("@" ++ name)
  | _ => none

def returnsText (n : Node) : Except Fault Json :=
  match n.returns with
  | some r => Json.str <$> defaultText r
  | none => .ok .null

/-- The plain parameters, defaults, decorators and return annotation of a function. -/
def signature (n : Node) : Except Fault Json := do
  let params := n.params.toList
  let texts (items : List String) : Json := .arr (items.map Json.str)
  let defaults ← (params.flatMap Node.paramDefaults).mapM defaultText
  let returns ← returnsText n
  return .obj [ ("args", texts (params.flatMap fun p ↦ p.plainParams.filterMap Node.paramName?)),
    ("defaults", texts defaults), ("decorators", texts (n.decorators.filterMap decoratorText?)),
    ("returns", returns)]

structure Parent where
  id : String
  type : Json

def Parent.isOf (p : Parent) (type : String) : Bool := p.type.same type

def fileNode (source : Source) (text : String) (type : Json) (n : Node) : Json :=
  .obj ([("node_type", type), ("name", .str (Path.ofText source.name).name),
    ("file_path", .str source.name), ("id", .str (fileId source.name)),
    ("hash", .str (Md5.ofText text)), ("analysis_confidence", "structural")] ++ documentation n)

def classNode (name id : String) (type : Json) (n : Node) : Json :=
  .obj ([("node_type", type), ("name", .str name), ("id", .str id),
    ("analysis_confidence", "structural")] ++ lines n ++ documentation n)

def functionNode (name id : String) (type : Json) (isAsync : Bool) (n : Node) : Except Fault Json := do
  return .obj ([("node_type", type), ("name", .str name), ("id", .str id),
    ("is_async", .bool isAsync), ("analysis_confidence", "structural")]
    ++ lines n ++ documentation n ++ [("signature", ← signature n)])

def variableNode (name id : String) (type : Json) (n : Node) : Json :=
  .obj ([("node_type", type), ("name", .str name), ("id", .str id),
    ("analysis_confidence", "structural")] ++ lines n)

/-- One step of the first pass. -/
inductive Step
  | fail (f : Fault)
  | register (id : String) (node : Json)
  | link (relation source target : String)
  | note (kind expression reason scope confidence : String)
  /-- Registers a node and links it to the one around it, unless its id is taken. -/
  | once (relation parent id : String) (node : Json)

/-- How a step is done. -/
def Step.run (setup : Setup) : Step → Surveying Unit
  | .fail f => throw f
  | .register id node => modify fun s ↦ s.register id node
  | .link relation source target => Survey.emitEdge setup relation source target []
  | .note kind expression reason scope confidence =>
    Survey.emitTicket setup kind expression reason scope confidence
  | .once relation parent id node => do
    if ((← get).node? id).isNone then
      modify fun s ↦ s.register id node
      Survey.emitEdge setup relation parent id []

def runAll (setup : Setup) (steps : List Step) : Surveying Unit := steps.forM (Step.run setup)

/-- The steps after a computation, or the failure that it ends in. -/
def orFail {α : Type} (x : Except Fault α) (next : α → List Step) : List Step :=
  match x with
  | .ok a => next a
  | .error f => [.fail f]

def variableSteps (setup : Setup) (parent : Parent) (definition : String) (n : Node) : List Step :=
  (n.targets.filterMap Node.storedName?).flatMap fun name ↦
    orFail (setup.schema.nodeType definition) fun type ↦
      [.once (if parent.isOf "File" then "defines" else "contains_variable") parent.id
        (symbolId parent.id name) (variableNode name (symbolId parent.id name) type n)]

def linksIn (parent : Parent) (inFile inClass : Step) : List Step :=
  if parent.isOf "File" then [inFile] else if parent.isOf "Class" then [inClass] else []

def classLinks (parent : Parent) (name : String) : List Step :=
  linksIn parent (.link "defines_class" parent.id (symbolId parent.id name))
    (.note "nested_class_unmodeled" name "Nested class structure not supported by core schema"
      parent.id "structural_violation")

def functionLinks (parent : Parent) (name : String) : List Step :=
  linksIn parent (.link "defines_function" parent.id (symbolId parent.id name))
    (.link "contains_method" parent.id (symbolId parent.id name))

def classSteps (setup : Setup) (parent : Parent) (name : String) (n : Node)
    (inner : Parent → List Step) : List Step :=
  orFail (setup.schema.nodeType "ClassDef") fun type ↦
    .register (symbolId parent.id name) (classNode name (symbolId parent.id name) type n) ::
      classLinks parent name ++ inner ⟨symbolId parent.id name, type⟩

def functionType (setup : Setup) (parent : Parent) : Except Fault Json :=
  if parent.isOf "Class" then .ok (.str "Method") else setup.schema.nodeType "FunctionDef"

/-- The steps for a function, before those for what it holds. -/
def functionSteps (setup : Setup) (parent : Parent) (name : String) (isAsync : Bool) (n : Node)
    (inner : Parent → List Step) : List Step :=
  if parent.isOf "Function" || parent.isOf "Method" then
    [.note "nested_function_unmodeled" name "Nested definition skipped" parent.id "unresolved"]
  else
    orFail (functionType setup parent) fun type ↦
      orFail (functionNode name (symbolId parent.id name) type isAsync n) fun node ↦
        .register (symbolId parent.id name) node ::
          functionLinks parent name ++ inner ⟨symbolId parent.id name, type⟩

mutual

/-- The steps for a tree below its parent, at a depth of the walk. -/
def steps (setup : Setup) (parent : Parent) (depth : Nat) : Node → List Step
  | .mk form span children =>
    orFail (Script.Walk.enter depth) fun _ ↦
      match form with
      | .classDef name _ _ _ =>
        classSteps setup parent name (.mk form span children) fun inner ↦
          stepsAll setup inner (depth + 3) children
      | .function name isAsync _ _ =>
        functionSteps setup parent name isAsync (.mk form span children) fun inner ↦
          stepsAll setup inner (depth + 4) children
      | .assign _ => variableSteps setup parent "Assign" (.mk form span children)
      | .annAssign => variableSteps setup parent "AnnAssign" (.mk form span children)
      | _ => stepsAll setup parent (depth + 2) children

def stepsAll (setup : Setup) (parent : Parent) (depth : Nat) : List Node → List Step
  | [] => []
  | n :: rest => steps setup parent depth n ++ stepsAll setup parent depth rest

end

def fileSteps (setup : Setup) (source : Source) (text : String) (n : Node) : List Step :=
  orFail (setup.schema.nodeType "Module") fun type ↦
    .register (fileId source.name) (fileNode source text type n) ::
      stepsAll setup ⟨fileId source.name, type⟩ 3 n.children

def visitFile (setup : Setup) (source : Source) (text : String) (n : Node) : Surveying Unit :=
  runAll setup (fileSteps setup source text n)

end Definitions

def Source.tree (source : Source) : Except Fault (String × Node) := do
  let text ← source.text
  return (text, ← Script.parse text)

end CodeAtlas.Build
