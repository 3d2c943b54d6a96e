import CodeAtlas.Graph.Query

/-!
# What agents have noted

Agents write notes into a copy of the graph: what a node is for, and how a ticket may be resolved.
Each note on a file carries the hash that the file had. From this follows which files still wait
for a note, how far the work has come, and whether the notes are complete.
-/

namespace CodeAtlas.Graph.Notes

/-- Why a file waits for a note or does not. -/
inductive Reason
  | fullMode
  | newFile
  | notEnriched
  | hashChanged
  | unchanged
deriving DecidableEq, Repr

def Reason.name : Reason → String
  | .fullMode => "full_mode"
  | .newFile => "new_file"
  | .notEnriched => "not_enriched"
  | .hashChanged => "hash_changed"
  | .unchanged => "unchanged"

def Reason.isPending : Reason → Bool
  | .unchanged => false
  | _ => true

/-- Whether a file with the given hash waits for a note, from its node in the noted graph. -/
def reasonFor (isFull : Bool) (hash : Json) (noted : Json) : Except Fault Reason := do
  if isFull then return .fullMode
  else if !noted.truthy then return .newFile
  else if !(← noted.holds "llm_enrichment") then return .notEnriched
  else
    let note ← noted.getD "llm_enrichment" (.obj [])
    if (← note.get "enriched_at_hash").same hash then return .unchanged else return .hashChanged

structure Entry where
  id : Json
  path : Json
  hash : Json
  reason : Reason

def Entry.document (e : Entry) : Json :=
  .obj [("id", e.id), ("file_path", e.path), ("current_hash", e.hash), ("reason", .str e.reason.name)]

/-- The nodes of the noted graph by id; a graph that is not there has none. -/
def notedNodes (noted : Json) : Except Fault (Table Key Json) := do
  if noted.truthy then
    (← nodesOf noted).foldlM (fun t n ↦ do return t.put (← (← n.get "id").key) n) []
  else return []

/-- All files of a graph, each with the reason why it waits or does not. -/
def survey (isFull : Bool) (graph noted : Json) : Except Fault (List Entry) := do
  let files ← (← nodesOf graph).filterM isFileNode
  let known ← notedNodes noted
  files.mapM fun n ↦ do
    let id ← n.get "id"
    let hash ← n.get "hash"
    let path ← n.getD "file_path" (← n.get "name")
    let reason ← reasonFor isFull hash ((known.get? (← id.key)).getD .null)
    return { id, path, hash, reason }

def surveyDocument (now mode : String) (entries : List Entry) : Json :=
  let (pending, skipped) := entries.partition fun e ↦ e.reason.isPending
  .obj [("_generated_at", .str now), ("_mode", .str mode),
    ("_summary", .obj [("total_files", .int entries.length),
      ("pending_enrichment", .int pending.length), ("skipped", .int skipped.length)]),
    ("files_to_enrich", .arr (pending.map Entry.document)),
    ("files_skipped", .arr (skipped.map Entry.document))]

structure Progress where
  nodes : Nat
  noted : Nat := 0
  tickets : Nat
  resolved : Nat := 0
  unresolved : Nat := 0
deriving DecidableEq, Repr

def Progress.countNode (p : Progress) (n : Json) : Except Fault Progress := do
  if ← n.holds "llm_enrichment" then return { p with noted := p.noted + 1 } else return p

def Progress.countTicket (p : Progress) (a : Json) : Except Fault Progress := do
  if ← a.holds "llm_resolution" then
    if (← (← a.need "llm_resolution").get "status").same "resolved" then
      return { p with resolved := p.resolved + 1 }
    else return { p with unresolved := p.unresolved + 1 }
  else return p

def progress (graph noted : Json) : Except Fault Progress := do
  let nodes ← (← graph.getD "nodes" (.arr [])).size
  let tickets ← (← graph.getD "ambiguities" (.arr [])).size
  let p : Progress := { nodes, tickets }
  if noted.truthy then
    let p ← (← nodesOf noted).foldlM Progress.countNode p
    (← (← noted.getD "ambiguities" (.arr [])).elements).foldlM Progress.countTicket p
  else return p

/-- The share of nodes with a note, in percent with one place. -/
def Progress.coverage (p : Progress) : Json :=
  if p.nodes = 0 then .int 0
  else
    let share := (Double.ofInt p.noted).div (Double.ofInt p.nodes)
    .float ((share.mul (Double.ofInt 100)).roundTo 1)

def Progress.document (now : String) (p : Progress) : Json :=
  .obj [("_generated_at", .str now), ("nodes", .obj [("total", .int p.nodes), ("enriched", .int p.noted),
      ("pending", .int ((p.nodes : Int) - p.noted)), ("coverage_percent", p.coverage)]),
    ("ambiguities", .obj [("total", .int p.tickets), ("resolved", .int p.resolved),
      ("unresolved", .int p.unresolved),
      ("not_processed", .int ((p.tickets : Int) - p.resolved - p.unresolved))])]

structure Remarks where
  errors : List String := []
  warnings : List String := []
deriving DecidableEq, Repr

def missing (v : Json) (names : List String) (remark : String → String) : Except Fault (List String) := do
  (← names.filterM fun name ↦ do return !(← v.holds (.str name))).mapM fun name ↦
    return remark name

def checkNode (n : Json) : Except Fault (List String) := do
  let id ← n.getD "id" "UNKNOWN"
  if ← n.holds "llm_enrichment" then
    missing (← n.need "llm_enrichment") ["intent", "summary"] fun name ↦
      s!"Node {id.display}: missing '{name}' in llm_enrichment"
  else return []

def checkTicket (place : Nat) (a : Json) : Except Fault (List String) := do
  if ← a.holds "llm_resolution" then
    let r ← a.need "llm_resolution"
    let noStatus ← missing r ["status"] fun name ↦ s!"Ambiguity {place}: missing '{name}' in llm_resolution"
    if (← r.get "status").same "resolved" then
      return noStatus ++ (← missing r ["probable_target"] fun name ↦
        s!"Ambiguity {place}: status is 'resolved' but missing '{name}'")
    else return noStatus
  else return []

def checkTickets : (place : Nat) → List Json → Except Fault (List String)
  | _, [] => .ok []
  | place, a :: rest => do return (← checkTicket place a) ++ (← checkTickets (place + 1) rest)

def remarks (noted : Json) : Except Fault Remarks := do
  let sections ← missing noted ["nodes", "edges"] fun name ↦ s!"Missing '{name}' array"
  let warnings ← (← nodesOf noted).mapM checkNode
  let tickets ← checkTickets 0 (← (← noted.getD "ambiguities" (.arr [])).elements)
  return { errors := sections ++ tickets, warnings := warnings.flatten }

end CodeAtlas.Graph.Notes
