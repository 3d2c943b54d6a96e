import CodeAtlas.Build.Draft
import CodeAtlas.Json.Writer
import CodeAtlas.Tree.Basic

/-!
# Registered definitions

While a graph of Python sources is built, every node is registered under its id. An edge is added
only between registered nodes, under the name that the language mapping gives it, and only where the
core schema allows it; otherwise a ticket tells why not.
-/

namespace CodeAtlas.Build

/-- The names that a language mapping gives to nodes and edges, and the rules for edges. -/
structure Schema where
  nodeNames : Json
  edgeNames : Json
  rules : EdgeRules

namespace Schema

def ofDocuments (mapping edges : Json) : Except Fault Schema := do
  let nodeNames ← mapping.getD "node_mappings" (.obj [])
  let edgeNames ← mapping.getD "edge_mappings" (.obj [])
  return ⟨nodeNames, edgeNames, ← EdgeRules.ofDocument edges⟩

def nodeType (s : Schema) (definition : String) : Except Fault Json :=
  s.nodeNames.getD definition definition

/-- The edge that a relation becomes, or null if the mapping does not know it. -/
def edgeType (s : Schema) (relation : String) : Except Fault Json := do
  if ← s.edgeNames.holds relation then s.edgeNames.get relation else return .null

end Schema

structure Setup where
  schema : Schema
  instructions : Json

structure Survey where
  draft : Draft := {}
  registry : Table String Json := []

abbrev Surveying := EStateM Fault Survey

def fileId (path : String) : String := Text.replace "\\" "/" path

def symbolId (parent name : String) : String := parent ++ "::" ++ name

/-- The path that a relative import means, if it does not lead above the top. -/
def relativeImport (base : String) (level : Int) (source : Option String) : Option String :=
  let above := (Path.names base).dropLast
  if (above.length : Int) < level - 1 then none
  else
    let kept := above.take ((above.length : Int) - (level - 1)).toNat
    let named :=
      match source with
      | some s => if s == "" then [] else [Text.replace "." "/" s]
      | none => []
    some (String.intercalate "/" (kept ++ named))

namespace Survey

def node? (s : Survey) (id : String) : Option Json :=
  (s.registry.get? id).filter Json.truthy

def register (s : Survey) (id : String) (node : Json) : Survey :=
  { s with registry := s.registry.put id node, draft := s.draft.addNode node }

def emitTicket (setup : Setup) (kind expression reason scope : String)
    (confidence : String := "unresolved") : Surveying Unit := do
  modify fun s ↦ { s with draft := s.draft.issue }
  let resolver ← resolverOf setup.instructions
  let ticket : Ticket :=
    { kind, expression := .str expression, reason, file := .str (Text.headBy "::" scope),
      scope := .str scope, confidence }
  modify fun s ↦ { s with draft := s.draft.addTicket ticket resolver }

/-- Adds an edge between two registered nodes if mapping and schema allow it. -/
def emitEdge (setup : Setup) (relation source target : String)
    (details : List (String × Json)) : Surveying Unit := do
  let s ← get
  match s.node? source, s.node? target with
  | some a, some b =>
    let edge ← setup.schema.edgeType relation
    if edge.truthy then
      let sourceType ← a.need "node_type"
      let targetType ← b.need "node_type"
      if ← setup.schema.rules.allows edge sourceType targetType then
        let members := [("edge", edge), ("from", .str source), ("to", .str target)]
        modify fun s ↦ { s with draft := s.draft.addEdge (.obj (Table.merge members details)) }
      else
        emitTicket setup "schema_violation" (relation ++ " -> " ++ edge.display)
          s!"Edge not allowed between {sourceType.display} and {targetType.display}" source
          "structural_violation"
    else
      emitTicket setup "mapping_violation" relation
        s!"Logical edge '{relation}' not found in language mapping" source "structural_violation"
  | _, _ => pure ()

end Survey

end CodeAtlas.Build
