import CodeAtlas.Json.Access
import CodeAtlas.Json.Writer

/-!
# Merging graphs

The graphs of several languages become one. Every node gets a canonical id: a file is known by its
path, a symbol by its scoped id, and anything else by its kind and name. Edges are redirected to the
canonical ids, and an edge that is there already is not added again.
-/

namespace CodeAtlas.Graph

/-- A graph that is to be merged, with the name of the file it comes from. -/
structure Fragment where
  name : String
  document : Except Fault Json

namespace Merge

def typeOf (n : Json) : Except Fault Json := do
  return ((← n.get "node_type").orElse (← n.get "type")).orElse "Unknown"

def canonicalId (n type : Json) : Except Fault Json := do
  let name ← n.getD "name" "Unnamed"
  let path ← n.get "file_path"
  let raw ← n.getD "id" ""
  if path.truthy && type.same "File" then
    return .str (type.display ++ ":" ++ path.display)
  else if ← raw.holds "::" then return raw
  else if path.truthy then
    return .str (type.display ++ ":" ++ path.display ++ "::" ++ name.display)
  else return .str (type.display ++ ":" ++ name.display)

def assignedId (n : Json) : Except Fault Json := do canonicalId n (← typeOf n)

/-- Nodes by canonical id, and the canonical ids of names and former ids. -/
structure Nodes where
  byId : Table Key Json := []
  idOf : Table Key Json := []
  ambiguities : List Json := []

/-- Adds a node; a later one of the same id replaces it, and so do later names. -/
def addNode (m : Nodes) (n : Json) : Except Fault Nodes := do
  let type ← typeOf n
  let name ← n.getD "name" "Unnamed"
  let raw ← n.getD "id" ""
  let id ← assignedId n
  let node := ((n.setMember "id" id).setMember "node_type" type).setMember "type" type
  let byId := m.byId.put (← id.key) node
  let idOf := m.idOf.put (← name.key) id
  let idOf ← if raw.truthy then do pure (idOf.put (← raw.key) id) else pure idOf
  return { m with byId, idOf }

def addFragment (m : Nodes) (f : Fragment) : Except Fault Nodes := do
  let graph ← f.document
  let tickets ← (← graph.getD "ambiguities" (.arr [])).elements
  let m := { m with ambiguities := m.ambiguities ++ tickets }
  (← (← graph.getD "nodes" (.arr [])).elements).foldlM addNode m

structure Edges where
  edges : List Json := []
  seen : List (Key × Key × Key) := []

def fixedFields : List String := ["from", "to", "edge", "type", "source", "target"]

/-- Adds an edge between canonical ids, with all its further fields. -/
def addEdge (idOf : Table Key Json) (m : Edges) (e : Json) : Except Fault Edges := do
  let source ← e.get "from"
  let target ← e.get "to"
  let type := (← e.get "edge").orElse (← e.get "type")
  let source := (idOf.get? (← source.key)).getD source
  let target := (idOf.get? (← target.key)).getD target
  let details := e.members.filter fun (k, _) ↦ !fixedFields.contains k
  let key := (← type.key, ← source.key, ← target.key)
  if m.seen.contains key then return m
  else
    return { edges := m.edges ++ [.obj ([("source", source), ("target", target), ("type", type)] ++ details)],
             seen := key :: m.seen }

def addFragmentEdges (idOf : Table Key Json) (m : Edges) (f : Fragment) : Except Fault Edges := do
  let graph ← f.document
  (← (← graph.getD "edges" (.arr [])).elements).foldlM (addEdge idOf) m

end Merge

def merge (fragments : List Fragment) : Except Fault Json := do
  let nodes ← fragments.foldlM Merge.addFragment {}
  let edges ← fragments.foldlM (Merge.addFragmentEdges nodes.idOf) {}
  return .obj [("nodes", .arr nodes.byId.values), ("edges", .arr edges.edges),
    ("ambiguities", .arr nodes.ambiguities), ("_meta", .obj [("source", "Spashta Runtime Orchestrator"),
      ("fragments_merged", .arr (fragments.map fun f ↦ .str f.name))])]

end CodeAtlas.Graph
