import CodeAtlas.Graph.Diff

/-!
# Whether two graphs have the same structure

A graph with roles must have the nodes, kinds, edges and number of tickets of the graph it was made
from. Every difference is a violation.
-/

namespace CodeAtlas.Graph.Equivalence

structure Violation where
  type : String
  detail : String
deriving DecidableEq, Repr

def Violation.document (v : Violation) : Json :=
  .obj [("type", .str v.type), ("detail", .str v.detail)]

/-- Nodes by id, each with its id as it was first written. -/
def indexed (nodes : List Json) : Except Fault (Table Key (Json × Json)) :=
  nodes.foldlM (fun t n ↦ do
    let id ← n.need "id"
    let k ← id.key
    let shown := ((t.get? k).map Prod.fst).getD id
    return t.put k (shown, n)) []

def countMismatch (type detail : String) (a b : Nat) : List Violation :=
  if a = b then [] else [⟨type, detail⟩]

def checkKept (enriched : Table Key (Json × Json)) (entry : Key × Json × Json) :
    Except Fault (List Violation) := do
  let (k, id, raw) := entry
  match enriched.get? k with
  | none => return [⟨"node_removed", s!"Node {id.display} present in Raw but missing in Enriched."⟩]
  | some (_, node) =>
    let before ← raw.get "type"
    let after ← node.get "type"
    if before.same after then return []
    else return [⟨"node_type_changed",
      s!"Node {id.display} type changed from '{before.display}' to '{after.display}'"⟩]

def edgeText (e : Json) : Except Fault String := do
  let source ← e.need "source"
  let target ← e.need "target"
  let type ← e.need "type"
  return source.display ++ "->" ++ target.display ++ "|" ++ type.display

/-- The texts of the first list that the second does not have, each once. -/
def missingFrom (texts others : List String) : List String :=
  (texts.filter fun t ↦ !others.contains t).eraseDups

def inOrder (type : String) (details : List String) : List Violation :=
  (details.mergeSort fun a b ↦ decide (a ≤ b)).map fun d ↦ ⟨type, d⟩

def violations (raw enriched : Json) : Except Fault (List Violation) := do
  let rawNodes ← raw.getD "nodes" (.arr [])
  let newNodes ← enriched.getD "nodes" (.arr [])
  let rawCount ← rawNodes.size
  let newCount ← newNodes.size
  let counts := countMismatch "node_count_mismatch"
    s!"Raw nodes: {rawCount}, Enriched nodes: {newCount}" rawCount newCount
  let rawMap ← indexed (← rawNodes.elements)
  let newMap ← indexed (← newNodes.elements)
  let kept ← rawMap.mapM (checkKept newMap)
  let added := newMap.filterMap fun (k, id, _) ↦
    if rawMap.contains k then none
    else some (⟨"node_added", s!"Node {id.display} added in Enriched (Forbidden)."⟩ : Violation)
  let rawEdges ← raw.getD "edges" (.arr [])
  let newEdges ← enriched.getD "edges" (.arr [])
  let _ ← rawEdges.size
  let _ ← newEdges.size
  let rawTexts ← (← rawEdges.elements).mapM edgeText
  let newTexts ← (← newEdges.elements).mapM edgeText
  let lost := inOrder "edge_removed"
    ((missingFrom rawTexts newTexts).map fun t ↦ s!"Edge {t} missing in Enriched.")
  let gained := inOrder "edge_added"
    ((missingFrom newTexts rawTexts).map fun t ↦ s!"Edge {t} added in Enriched (Forbidden).")
  let rawTickets ← (← raw.getD "ambiguities" (.arr [])).size
  let newTickets ← (← enriched.getD "ambiguities" (.arr [])).size
  let tickets := countMismatch "ambiguity_mismatch"
    (s!"Raw ambiguities: {rawTickets}, Enriched ambiguities: {newTickets}. " ++
      "Enrichment must preserve known unknowns.") rawTickets newTickets
  return counts ++ kept.flatten ++ added ++ lost ++ gained ++ tickets

def report (vs : List Violation) : Json :=
  .obj [("status", .str (if vs.isEmpty then "pass" else "fail")),
    ("violations", .arr (vs.map Violation.document))]

end CodeAtlas.Graph.Equivalence
