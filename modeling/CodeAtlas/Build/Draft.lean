import CodeAtlas.Json.Access

/-!
# Graphs under construction

A draft collects the nodes and edges that are proven, and a ticket for everything that is not: what
a reader of the source cannot decide is left to somebody who can. The core schema says between which
kinds of nodes an edge may run; everything else in it is commentary.
-/

namespace CodeAtlas.Build

abbrev EdgeRules := Table String Json

namespace EdgeRules

def addCategory (rules : EdgeRules) (category : Json) : EdgeRules :=
  category.members.foldl (fun rules (name, rule) ↦
    if (rule.member? "from").isSome then Table.put rules name rule else rules) rules

def ofDocument (schema : Json) : Except Fault EdgeRules := do
  let categories ← schema.membersBy "values"
  return categories.foldl (fun rules (_, category) ↦ addCategory rules category) []

def rule? (rules : EdgeRules) (edge : Json) : Except Fault (Option Json) := do
  match ← edge.key with
  | .str name => return Table.get? rules name
  | _ => return none

def allows (rules : EdgeRules) (edge source target : Json) : Except Fault Bool := do
  match ← rules.rule? edge with
  | none => return false
  | some rule =>
    let sources ← rule.getD "from" (.arr [])
    let targets ← rule.getD "to" (.arr [])
    if ← sources.holds source then targets.holds target else return false

end EdgeRules
structure Draft where
  nodes : List Json := []
  edges : List Json := []
  ambiguities : List Json := []
  logs : List Json := []
  issued : Nat := 0

structure Ticket where
  kind : String
  expression : Json
  reason : String
  file : Json
  scope : Json
  confidence : String := "unresolved"

def Ticket.document (t : Ticket) (number : Nat) (resolver : Json) : Json :=
  .obj [("id", .str s!"amb-{number}"), ("kind", .str t.kind), ("source_file", t.file),
    ("source_scope", t.scope), ("expression", t.expression), ("reason", .str t.reason),
    ("confidence", .str t.confidence), ("resolver", resolver)]

/-- Who is to resolve tickets under the given instructions. -/
def resolverOf (instructions : Json) : Except Fault Json := do
  let policy ← instructions.getD "ambiguity_policy" (.obj [])
  policy.getD "default_resolver" "agent"

namespace Draft

def addNode (d : Draft) (node : Json) : Draft := { d with nodes := d.nodes ++ [node] }

def addEdge (d : Draft) (edge : Json) : Draft := { d with edges := d.edges ++ [edge] }

def addLog (d : Draft) (entry : Json) : Draft := { d with logs := d.logs ++ [entry] }

def issue (d : Draft) : Draft := { d with issued := d.issued + 1 }

def addTicket (d : Draft) (t : Ticket) (resolver : Json) : Draft :=
  { d with ambiguities := d.ambiguities ++ [t.document d.issued resolver] }

def document (d : Draft) (header : List (String × Json)) : Json :=
  .obj [("_meta", .obj header), ("nodes", .arr d.nodes), ("edges", .arr d.edges),
    ("ambiguities", .arr d.ambiguities), ("logs", .arr d.logs)]

end Draft

/-- One file that a graph is built from. -/
structure Source where
  /-- The path below the directory that is scanned. -/
  name : String
  /-- The path by which logs name the file. -/
  path : String
  text : Except Fault String

end CodeAtlas.Build
