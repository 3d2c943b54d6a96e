import CodeAtlas.Graph.Diff

/-!
# Giving roles to nodes

A framework gives a role to a node if all its detection rules hold: what the node extends, where it
is defined, what decorates it, what its file imports, what it calls and how it is named. A rule that
is not given always holds.

Roles are given to all nodes, or, where a diff report and an older graph with roles are at hand,
only to those that are not unchanged: the others are taken from the older graph as they are. Edges
and tickets stay what they were.
-/

namespace CodeAtlas.Graph

/-- The edges of a graph by either end, each with its kind and its other end, and the nodes by
id. -/
structure Topology where
  leaving : Table Key (List (Json × Json)) := []
  arriving : Table Key (List (Json × Json)) := []
  nodes : Table Key Json := []

namespace Topology

def leavingFrom (t : Topology) (id : Json) : Except Fault (List (Json × Json)) := do
  return (t.leaving.get? (← id.key)).getD []

def arrivingAt (t : Topology) (id : Json) : Except Fault (List (Json × Json)) := do
  return (t.arriving.get? (← id.key)).getD []

def node? (t : Topology) (id : Json) : Except Fault (Option Json) := do
  return (t.nodes.get? (← id.key)).filter Json.truthy

/-- Adds an edge, unless an end is missing. -/
def addEdge (t : Topology) (e : Json) : Except Fault Topology := do
  let source ← e.getD "source" (← e.get "from")
  let target ← e.getD "target" (← e.get "to")
  let type ← e.getD "type" (← e.get "edge")
  if source.truthy && target.truthy then
    let s ← source.key
    let d ← target.key
    return { t with leaving := t.leaving.push s (type, target), arriving := t.arriving.push d (type, source) }
  else return t

end Topology

namespace Roles

/-- Whether a node at the other end of an edge of one kind passes a test. -/
def someEnd (t : Topology) (type : String) (test : Json → Except Fault Bool) :
    List (Json × Json) → Except Fault Bool
  | [] => .ok false
  | (kind, other) :: rest => do
    if kind.same type then
      match ← t.node? other with
      | some n => if ← test n then return true else someEnd t type test rest
      | none => someEnd t type test rest
    else someEnd t type test rest

def namedIn (rules : Json) (rule : String) (n : Json) : Except Fault Bool := do
  let name ← n.get "name"
  (← rules.need rule).holds name

/-- What a pattern is matched as: a word may stand anywhere, a pattern with a star as it is. -/
def globOf (pattern : Json) : Except Fault Json := do
  if ← pattern.holds "*" then return pattern
  else return .str ("*" ++ pattern.display ++ "*")

/-- Whether a name of unknown shape fits a pattern of unknown shape. -/
def fitsGlob (name pattern : Json) : Except Fault Bool :=
  let needText (v : Json) : Except Fault String :=
    match v with
    | .str s => .ok s
    | w => .error (.badOperand s!"expected str, bytes or os.PathLike object, not {w.kind.name}")
  do
    let name ← needText name
    let pattern ← needText pattern
    return Text.Glob.matchesName pattern name

def standsIn (rules n : Json) : Except Fault Bool := do
  let name ← n.getD "name" ""
  let file ← n.getD "file_path" name
  fitsGlob file (← globOf (← rules.need "file_path_contains"))

/-- The file that defines a node: the first one that claims to. -/
def definingFile? (t : Topology) : List (Json × Json) → Except Fault (Option Json)
  | [] => .ok none
  | (kind, source) :: rest =>
    if kind.same "defines" then t.node? source else definingFile? t rest

def isPackage (wanted n : Json) : Except Fault Bool := do (← n.get "name").holds wanted

def importsPackage (t : Topology) (rules id : Json) : Except Fault Bool := do
  let wanted ← rules.need "requires_import"
  match ← definingFile? t (← t.arrivingAt id) with
  | some file =>
    someEnd t "imports" (isPackage wanted) (← t.leavingFrom (← file.get "id"))
  | none => return false

def ruleHolds (t : Topology) (rules n : Json) (rule : String) : Except Fault Bool := do
  let id ← n.get "id"
  match rule with
  | "inheritance_includes" => someEnd t "extends" (namedIn rules rule) (← t.leavingFrom id)
  | "file_path_contains" => someEnd t "defines" (standsIn rules) (← t.arrivingAt id)
  | "decorated_by" =>
    let _ ← rules.need rule
    someEnd t "decorates" (namedIn rules rule) (← t.arrivingAt id)
  | "requires_import" => importsPackage t rules id
  | "used_in_calls" => someEnd t "calls" (namedIn rules rule) (← t.leavingFrom id)
  | _ => namedIn rules rule n

def ruleNames : List String :=
  ["inheritance_includes", "file_path_contains", "decorated_by", "requires_import",
   "used_in_calls", "function_name"]

def allHold (t : Topology) (rules n : Json) : List String → Except Fault Bool
  | [] => .ok true
  | rule :: rest => do
    if ← rules.holds rule then
      if ← ruleHolds t rules n rule then allHold t rules n rest else return false
    else allHold t rules n rest

def recognises (t : Topology) (rules n : Json) : Except Fault Bool := do
  let _ ← n.get "id"
  allHold t rules n ruleNames

end Roles

end CodeAtlas.Graph

namespace CodeAtlas.Graph.Enrichment

/-- The nodes that are taken over and those that are looked at anew. -/
structure Plan where
  preserved : Table Key Json := []
  fresh : Table Key Json := []

def isFull (before report : Json) : Bool := !report.truthy || !before.truthy

/-- The status that a report gives to an id; without one a node counts as modified. -/
def reported (report : Json) (id : Key) : Except Fault Json := do
  let statuses ← report.getD "node_status" (.obj [])
  match id with
  | .str name => statuses.getD name "MODIFIED"
  | _ => statuses.getD "" "MODIFIED" >>= fun _ ↦ .ok "MODIFIED"

def plan (raw before report : Json) : Except Fault Plan := do
  if isFull before report then
    return { fresh := ← Diff.nodesById (← Diff.requiredNodes raw) }
  else
    let old ← Diff.nodesById (← Diff.requiredNodes before)
    let new ← Diff.nodesById (← Diff.requiredNodes raw)
    let _ ← report.getD "node_status" (.obj [])
    new.foldlM (fun (p : Plan) (id, n) ↦ do
      let status ← reported report id
      match old.get? id with
      | some kept =>
        if status.same "UNCHANGED" then
          return { p with preserved := p.preserved ++ [(id, kept)] }
        else return { p with fresh := p.fresh ++ [(id, n)] }
      | none => return { p with fresh := p.fresh ++ [(id, n)] }) {}

def topologyOf (p : Plan) (raw : Json) : Except Fault Topology := do
  let edges ← (← raw.need "edges").elements
  edges.foldlM Topology.addEdge { nodes := p.preserved ++ p.fresh }

/-- A node with one more role, or nothing if it has the role already. -/
def addRole (n role : Json) : Except Fault (Option Json) := do
  let roles ← n.getD "semantic_roles" (.arr [])
  if ← roles.holds role then return none
  else
    match roles with
    | .arr rs => return some (n.setMember "semantic_roles" (.arr (rs ++ [role])))
    | v => throw (.noMember v.kind "append")

def applyTo (t : Topology) (role type detection n : Json) : Except Fault (Option Json) := do
  let nodeType ← n.getD "node_type" (← n.get "type")
  if nodeType.same type then
    if ← Roles.recognises t detection n then addRole n role else return none
  else return none

/-- One rule of a framework on all nodes that are looked at, with the number of roles given. -/
def applyRule (t : Topology) (state : Table Key Json × Nat) (rule : Json) :
    Except Fault (Table Key Json × Nat) := do
  let role ← rule.need "semantic_role"
  let type ← rule.need "core_node"
  let detection ← rule.getD "detection_rules" (.obj [])
  state.1.foldlM (fun (done, count) (id, n) ↦ do
    match ← applyTo t role type detection n with
    | some n => return (done ++ [(id, n)], count + 1)
    | none => return (done ++ [(id, n)], count)) ([], state.2)

def applyMapping (t : Topology) (state : Table Key Json × Nat) (mapping : Json) :
    Except Fault (Table Key Json × Nat) := do
  (← (← mapping.getD "mappings" (.arr [])).elements).foldlM (applyRule t) state

/-- What came of reading the mapping of a framework, which need not have one. -/
abbrev Reading := Except Fault (Option Json)

def applyFramework (t : Topology) (state : Table Key Json × Nat) (r : Reading) :
    Except Fault (Table Key Json × Nat) := do
  match ← r with
  | some mapping => applyMapping t state mapping
  | none => return state

def document (raw report : Json) (p : Plan) (nodes : Table Key Json) (roles : Nat) : Except Fault Json := do
  let edges ← raw.need "edges"
  let tickets ← raw.getD "ambiguities" (.arr [])
  return .obj [("nodes", .arr (p.preserved.values ++ nodes.values)), ("edges", edges),
    ("ambiguities", tickets), ("_meta", .obj [
      ("enrichment_mode", .str (if report.truthy then "incremental" else "full")),
      ("stats", .obj [("preserved", .int p.preserved.length), ("enriched", .int p.fresh.length),
        ("roles_applied", .int roles)])])]

/-- Lets each framework give roles to the nodes that are looked at anew. -/
def complete (raw report : Json) (p : Plan) (frameworks : List Reading) : Except Fault Json := do
  let t ← topologyOf p raw
  let (nodes, roles) ← frameworks.foldlM (applyFramework t) (p.fresh, 0)
  document raw report p nodes roles

/-- The graph with roles, from what came before it and a report on what has changed since. -/
def enriched (raw before report : Json) (frameworks : List Reading) : Except Fault Json := do
  complete raw report (← plan raw before report) frameworks

end CodeAtlas.Graph.Enrichment
