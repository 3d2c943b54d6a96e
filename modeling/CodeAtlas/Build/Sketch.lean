import CodeAtlas.Build.Draft
import CodeAtlas.Json.Writer

/-!
# Graphs of markup and stylesheets

A file of markup or style names things without proving that they exist. Each thing is a node of the
file that names it, added once; an edge is added once, and only if the language mapping knows its
kind and the core schema allows it. Otherwise a ticket tells why not.
-/

namespace CodeAtlas.Build

/-- What a build of markup or stylesheets is configured with. -/
structure Outline where
  instructions : Json
  mapping : Json
  rules : EdgeRules
  /-- The kinds of edges that the mapping names. -/
  known : List Key
  /-- The reason given for an edge of another kind. -/
  unknownReason : String → String

/-- A draft with what it already holds, and the file that is read. -/
structure Sketch where
  draft : Draft := {}
  nodeIds : List String := []
  edgeKeys : List (Key × String × String) := []
  file : Option String := none
  fileId : Option String := none

abbrev Sketching := EStateM Fault Sketch

namespace Sketch

def fileJson (s : Sketch) : Json := (s.file.map Json.str).getD .null

def emitTicket (o : Outline) (kind : String) (expression : Json) (reason : String) (scope : Json)
    (confidence : String := "unresolved") : Sketching Unit := do
  modify fun s ↦ { s with draft := s.draft.issue }
  let resolver ← resolverOf o.instructions
  let ticket : Ticket := { kind, expression, reason, file := scope, scope, confidence }
  modify fun s ↦ { s with draft := s.draft.addTicket ticket resolver }

def note (o : Outline) (kind : String) (expression : Json) (reason : String) : Sketching Unit := do
  emitTicket o kind expression reason (← get).fileJson

/-- The document of a node; given details replace or follow the fixed ones. -/
def nodeDocument (type : Json) (name id confidence : String) (details : List (String × Json)) : Json :=
  let detail (key : String) : Json := (Table.get? details key).getD .null
  .obj (Table.merge
    [("node_type", type), ("name", .str name), ("id", .str id),
     ("analysis_confidence", .str confidence), ("line_start", detail "line_start"),
     ("line_end", detail "line_end"), ("attributes", detail "attributes")] details)

def addNode (s : Sketch) (type : Json) (name id confidence : String)
    (details : List (String × Json)) : Sketch :=
  if s.nodeIds.contains id then s
  else
    { s with
      draft := s.draft.addNode (nodeDocument type name id confidence details)
      nodeIds := id :: s.nodeIds }

def scopedId (file : Json) (type : Json) (name : String) : String :=
  file.display ++ "::" ++ type.display ++ "::" ++ name

/-- The id of what a file of a kind names. -/
def idFor (s : Sketch) (fileKind : String) (type : Json) (name : String) (scope : Json := .null) : String :=
  if type.same fileKind then name else scopedId (if scope.truthy then scope else s.fileJson) type name

def emitNode (fileKind : String) (type : Json) (name confidence : String) (scope : Json)
    (details : List (String × Json)) : Sketching String := do
  let id := (← get).idFor fileKind type name scope
  modify (·.addNode type name id confidence details)
  return id

def opened (s : Sketch) (fileKind name confidence : String) (details : List (String × Json)) : Sketch :=
  { { s with file := some name }.addNode fileKind name name confidence details with fileId := some name }

/-- Adds an edge unless it is there already, if mapping and schema allow it. -/
def emitEdge (o : Outline) (edge : Json) (source target : String) (sourceType targetType : Json) :
    Sketching Unit := do
  let key ← edge.key
  let s ← get
  if !o.known.contains key then
    emitTicket o "mapping_violation" edge (o.unknownReason edge.display) s.fileJson
  else if !(← o.rules.allows edge sourceType targetType) then
    emitTicket o "schema_violation"
      (.str (edge.display ++ ":" ++ sourceType.display ++ "->" ++ targetType.display))
      "Edge not allowed by Core Schema" s.fileJson "structural_violation"
  else if !s.edgeKeys.contains (key, source, target) then
    set { s with
      draft := s.draft.addEdge (.obj [("edge", edge), ("from", .str source), ("to", .str target)])
      edgeKeys := (key, source, target) :: s.edgeKeys }

/-- The edge from the file that is read, if there is to be one. -/
def linkTo (o : Outline) (fileKind id : String) (type : Json) (edge? : Except Fault (Option Json)) :
    Sketching Unit := do
  match ← edge? with
  | some edge => emitEdge o edge ((← get).fileId.getD "") id fileKind type
  | none => pure ()

end Sketch

/-- How files of a language are read. -/
structure Reader where
  outline : Outline
  fileKind : String
  /-- What is told about a file of a text. -/
  details : String → List (String × Json)
  /-- What is done with a text once its file is open. -/
  read : String → Sketching Unit
  /-- What is logged about a file that cannot be read to its end. -/
  entry : Source → Fault → Sketch → Json

namespace Reader

def visit (r : Reader) (source : Source) : Sketching Unit := do
  let text ← source.text
  modify (·.opened r.fileKind source.name "structural" (r.details text))
  r.read text

/-- Adds a file; a failure is logged and what was found so far is kept. -/
def add (r : Reader) (s : Sketch) (source : Source) : Sketch :=
  match r.visit source s with
  | .ok _ s => s
  | .error f s => { s with draft := s.draft.addLog (r.entry source f s) }

end Reader

end CodeAtlas.Build
