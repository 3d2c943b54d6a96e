import CodeAtlas.Json.Access
import CodeAtlas.Json.Writer

/-!
# Conformance to the core schema

A graph conforms if every node has an id and a known kind, every edge is of a known kind, joins
nodes of the graph and is allowed between their kinds, and every ticket has the fields that a
resolver needs. The report lists what is wrong; a graph passes if nothing is.
-/

namespace CodeAtlas.Graph

structure CoreSchema where
  nodeTypes : List String
  edgeTypes : Table String Json

namespace CoreSchema

def edgeTypesOf (schema : Json) : Except Fault (Table String Json) := do
  let categories ← schema.membersBy "items"
  return categories.foldl (fun types (name, rules) ↦
    if name == "_meta" then types else Table.merge types rules.members) []

def knowsNode (s : CoreSchema) (type : Json) : Except Fault Bool := do
  match ← type.key with
  | .str name => return s.nodeTypes.contains name
  | _ => return false

def edge? (s : CoreSchema) (type : Json) : Except Fault (Option Json) := do
  match ← type.key with
  | .str name => return Table.get? s.edgeTypes name
  | _ => return none

end CoreSchema

namespace Conformance

structure Report where
  file : String
  nodes : Nat
  edges : Nat
  ambiguities : Nat
  errors : List Json
  warnings : List Json

def Report.passes (r : Report) : Bool := r.errors.isEmpty

def Report.document (r : Report) : Json :=
  .obj [("file", .str r.file), ("status", .str (if r.passes then "pass" else "fail")),
    ("node_count", .int r.nodes), ("edge_count", .int r.edges),
    ("ambiguity_count", .int r.ambiguities), ("schema_errors", .arr r.errors),
    ("schema_warnings", .arr r.warnings)]

abbrev Types := Table Key Json

/-- Checks one node: the kinds with its own added, and what is wrong with it. -/
def checkNode (s : CoreSchema) (types : Types) (n : Json) : Except Fault (Types × List Json) := do
  let id := (← n.get "id").orElse (← n.get "name")
  let type := (← n.get "type").orElse (← n.get "node_type")
  if !id.truthy then return (types, [.obj [("issue", "Missing Node ID"), ("node", n)]])
  else if !type.truthy then
    return (types, [.obj [("issue", "Missing Node Type"), ("node", n)]])
  else
    let types := types.put (← id.key) type
    if ← s.knowsNode type then return (types, [])
    else
      return (types, [.obj [("issue", "Invalid Node Type"), ("value", type), ("id", id),
        ("detail", "Type not defined in nodes.json")]])

def checkNodes (s : CoreSchema) (nodes : List Json) : Except Fault (Types × List Json) :=
  nodes.foldlM (fun (types, errors) n ↦ do
    let (types, found) ← checkNode s types n
    return (types, errors ++ found)) ([], [])

/-- The kinds that a rule allows at one end, each once and in alphabetical order. -/
def allowedEnds (rule : Json) (ending : String) : Except Fault (List Json) := do
  let ends ← (← rule.getD ending (.arr [])).elements
  let distinct ← ends.foldlM (fun (seen : Table Key Json) e ↦ do
    let k ← e.key
    return if seen.contains k then seen else seen ++ [(k, e)]) []
  return distinct.values.mergeSort fun a b ↦ decide (a.display ≤ b.display)

/-- What is wrong with an edge between two kinds of nodes. -/
def checkTriple (rule edge source target : Json) : Except Fault (List Json) := do
  let sources ← allowedEnds rule "from"
  let targets ← allowedEnds rule "to"
  let mismatch (issue : String) (allowed : List Json) (detail : String) : Json :=
    .obj [("issue", .str issue), ("edge_type", edge), ("from_type", source), ("to_type", target),
      ("allowed", .arr allowed), ("detail", .str detail)]
  let atSource := if sources.any (·.alike source) then [] else
    [mismatch "Invalid Edge Relationship (Source)" sources
      s!"Edge '{edge.display}' cannot originate from '{source.display}'"]
  let atTarget := if targets.any (·.alike target) then [] else
    [mismatch "Invalid Edge Relationship (Target)" targets
      s!"Edge '{edge.display}' cannot point to '{target.display}'"]
  return atSource ++ atTarget

def checkEdge (s : CoreSchema) (types : Types) (e : Json) : Except Fault (List Json) := do
  let edge ← e.get "edge"
  let source ← e.get "from"
  let target ← e.get "to"
  if !(edge.truthy && source.truthy && target.truthy) then
    return [.obj [("issue", "Malformed Edge"), ("edge", e)]]
  else
    match ← s.edge? edge with
    | none =>
      return [.obj [("issue", "Invalid Edge Type"), ("value", edge), ("from", source),
        ("to", target), ("detail", "Edge type not defined in edges.json")]]
    | some rule =>
      let sourceType? := types.get? (← source.key)
      let targetType? := types.get? (← target.key)
      match sourceType?, targetType? with
      | none, _ =>
        return [.obj [("issue", "Orphaned Edge Source"), ("edge", e),
          ("detail", .str s!"Node {source.display} not found in AST nodes")]]
      | some _, none =>
        return [.obj [("issue", "Orphaned Edge Target"), ("edge", e),
          ("detail", .str s!"Node {target.display} not found in AST nodes")]]
      | some sourceType, some targetType => checkTriple rule edge sourceType targetType

def checkEdges (s : CoreSchema) (types : Types) (edges : List Json) : Except Fault (List Json) :=
  edges.foldlM (fun errors e ↦ do return errors ++ (← checkEdge s types e)) []

def ticketFields : List String := ["id", "kind", "reason", "confidence"]

def standardConfidences : List String := ["unresolved", "heuristic", "structural_violation"]

def checkTicket (t : Json) : Except Fault (List Json × List Json) := do
  let missing ← ticketFields.filterM fun f ↦ do return !(← t.holds (.str f))
  if missing ≠ [] then
    return ([.obj [("issue", "Malformed Ambiguity Ticket"),
      ("missing", .arr (missing.map Json.str)), ("record", t)]], [])
  else
    let confidence ← t.need "confidence"
    if standardConfidences.any fun c ↦ confidence.same c then return ([], [])
    else
      return ([], [.obj [("issue", "Non-Standard Ambiguity Confidence"),
        ("value", confidence), ("id", ← t.need "id")]])

def checkTickets (tickets : List Json) : Except Fault (List Json × List Json) :=
  tickets.foldlM (fun (errors, warnings) t ↦ do
    let (e, w) ← checkTicket t
    return (errors ++ e, warnings ++ w)) ([], [])

def check (nodeSchema : Json) (edgeTypes : Table String Json) (file : String) (graph : Json) :
    Except Fault Report := do
  let nodes ← graph.getD "nodes" (.arr [])
  let edges ← graph.getD "edges" (.arr [])
  let nodeCount ← nodes.size
  let edgeCount ← edges.size
  let tickets ← graph.getD "ambiguities" (.arr [])
  let ticketCount ← tickets.size
  let s : CoreSchema := ⟨(← nodeSchema.membersBy "keys").map Prod.fst, edgeTypes⟩
  let (types, nodeErrors) ← checkNodes s (← nodes.elements)
  let edgeErrors ← checkEdges s types (← edges.elements)
  let (ticketErrors, warnings) ← checkTickets (← tickets.elements)
  return { file, nodes := nodeCount, edges := edgeCount, ambiguities := ticketCount,
           errors := nodeErrors ++ edgeErrors ++ ticketErrors, warnings }

end Conformance

end CodeAtlas.Graph
