import CodeAtlas.Graph.Query

/-!
# What has changed between two graphs

Files are compared by their hashes. A node that is in both graphs has the status of the file that
owns it now; one without a file counts as modified if it is the same in both graphs, and has no
status otherwise.
-/

namespace CodeAtlas.Graph

inductive Status
  | added
  | modified
  | unchanged
  | removed
deriving DecidableEq, Repr

def Status.name : Status → String
  | .added => "ADDED"
  | .modified => "MODIFIED"
  | .unchanged => "UNCHANGED"
  | .removed => "REMOVED"

namespace Diff

/-- What changed, for files and for nodes, how often a node was given each status, and how the ids
of files and nodes are written. -/
structure Report where
  files : Table Key Status := []
  nodes : Table Key Status := []
  stats : Table Status Nat := []
  fileIds : List Json := []
  nodeIds : List Json := []

def statusMembers (ids : List Json) (t : Table Key Status) : Json :=
  .ofKeys (Json.memberNames ids) (t.map fun (k, s) ↦ (k, .str s.name))

/-- Counts one more node of a status. -/
def bump (stats : Table Status Nat) (s : Status) : Table Status Nat :=
  stats.put s ((stats.get? s).getD 0 + 1)

def Report.count (r : Report) (s : Status) : Nat := (r.stats.get? s).getD 0

def Report.document (r : Report) : Json :=
  .obj [("status", "success"), ("file_status", statusMembers r.fileIds r.files),
    ("node_status", statusMembers r.nodeIds r.nodes),
    ("stats", .obj [("added", .int (r.count .added)), ("modified", .int (r.count .modified)),
      ("unchanged", .int (r.count .unchanged)), ("removed", .int (r.count .removed))])]

def requiredNodes (g : Json) : Except Fault (List Json) := do (← g.need "nodes").elements

def idsOf (nodes : List Json) : Except Fault (List Json × List Json) := do
  return (← nodes.mapM (·.need "id"), ← fileIds nodes)

/-- The report on a graph that has no forerunner: all is added. -/
def first (g : Json) : Except Fault Json := do
  let nodes ← requiredNodes g
  let report ← nodes.foldlM (fun (r : Report) n ↦ do
    let id ← (← n.need "id").key
    let r := { r with nodes := r.nodes.put id .added, stats := bump r.stats .added }
    if ← isFileNode n then return { r with files := r.files.put id .added } else return r) {}
  let (nodeIds, fileIds) ← idsOf nodes
  return { report with nodeIds, fileIds }.document

def fileHashes (nodes : List Json) : Except Fault (Table Key Json) :=
  nodes.foldlM (fun hashes n ↦ do
    if ← isFileNode n then
      let k ← (← n.need "id").key
      return hashes.put k ((← n.get "file_hash").orElse (← n.get "hash"))
    else return hashes) []

/-- The status of a file by its hashes now and before; a missing hash counts as a change. -/
def fileStatus (now before : Option Json) : Status :=
  match now, before with
  | some _, none => .added
  | none, _ => .removed
  | some n, some b =>
    if n = .null ∨ b = .null then .modified else if n.same b then .unchanged else .modified

/-- The keys of two tables, those of the first before those that only the second has. -/
def unionKeys {β γ : Type} (t : Table Key β) (u : Table Key γ) : List Key :=
  t.keys ++ u.keys.filter fun k ↦ !t.contains k

def fileStatuses (now before : Table Key Json) : Table Key Status :=
  (unionKeys now before).map fun k ↦ (k, fileStatus (now.get? k) (before.get? k))

def nodesById (nodes : List Json) : Except Fault (Table Key Json) :=
  nodes.foldlM (fun t n ↦ do return t.put (← (← n.need "id").key) n) []

def isSameText (a b : Json) : Bool := a.sorted.compact == b.sorted.compact

/-- The status of a node from the nodes of both graphs and the status of its file. -/
def nodeStatus (now before : Option Json) (file : Option Status) : Option Status :=
  match now, before with
  | none, _ => some .removed
  | some _, none => some .added
  | some n, some b =>
    match file with
    | some .unchanged => some .unchanged
    | some .added => some .modified
    | some .modified => some .modified
    | _ => if isSameText n b then some .modified else none

def ownerStatus (owners : Table Key Json) (files : Table Key Status) (id : Key) :
    Except Fault (Option Status) := do
  match owners.get? id with
  | some owner => if owner.truthy then return files.get? (← owner.key) else return none
  | none => return none

def between (now before : Json) : Except Fault Report := do
  let nowHashes ← fileHashes (← requiredNodes now)
  let beforeHashes ← fileHashes (← requiredNodes before)
  let files := fileStatuses nowHashes beforeHashes
  let owners ← ownersOf now
  let _ ← ownersOf before
  let nowNodes ← nodesById (← requiredNodes now)
  let beforeNodes ← nodesById (← requiredNodes before)
  let nodes ← (unionKeys nowNodes beforeNodes).filterMapM fun k ↦ do
    let file ← ownerStatus owners files k
    return (nodeStatus (nowNodes.get? k) (beforeNodes.get? k) file).map fun s ↦ (k, s)
  let (nowIds, nowFileIds) ← idsOf (← requiredNodes now)
  let (beforeIds, beforeFileIds) ← idsOf (← requiredNodes before)
  let stats := nodes.foldl (fun stats e ↦ bump stats e.2) []
  return { files, nodes, stats, fileIds := nowFileIds ++ beforeFileIds, nodeIds := nowIds ++ beforeIds }

def report (now before : Json) : Except Fault Json := do
  if before.truthy then return (← between now before).document else first now

end Diff

end CodeAtlas.Graph
