import CodeAtlas.Json.Access
import CodeAtlas.Json.Writer
import CodeAtlas.Text.Case

/-!
# Questions to a graph

Search for nodes, look-up of one node, tracing of dependencies in either direction, and the calls
that a node makes and receives. A file owns what it defines, what those contain, and so on. Where
several files reach a node, the one that reaches it first in a walk by levels owns it.
-/

namespace CodeAtlas.Graph

open Text

def nodesOf (g : Json) : Except Fault (List Json) := do
  (← g.getD "nodes" (.arr [])).elements

def edgesOf (g : Json) : Except Fault (List Json) := do
  (← g.getD "edges" (.arr [])).elements

def findNode? (id : Json) : List Json → Except Fault (Option Json)
  | [] => .ok none
  | n :: rest => do if (← n.need "id").same id then return some n else findNode? id rest

def node? (g : Json) (id : Json) : Except Fault (Option Json) := do
  findNode? id (← nodesOf g)

/-- Both ends of an edge and its kind, under whichever names they stand. -/
structure Endpoints where
  source : Json
  target : Json
  kind : Json

def endpoints (e : Json) : Except Fault Endpoints := do
  let source := (← e.get "source").orElse (← e.get "from")
  let target := (← e.get "target").orElse (← e.get "to")
  let kind := ((← e.get "type").orElse (← e.get "relation_type")).orElse (← e.get "edge")
  return ⟨source, target, kind⟩

/-! ## Search -/

/-- What a search looks for: a part of name or id, or the value of an attribute. -/
inductive Wanted
  | part (text : String)
  | attribute (name value : String)
deriving DecidableEq, Repr

/-- A query with one colon names an attribute and its value. -/
def Wanted.ofQuery (query : Json) : Except Fault Wanted := do
  let single ← query.holds ":"
  let named ← if single then do pure !(← query.holds "::") else pure false
  if named then
    let text ← query.strBy "split"
    let name := text.toList.takeWhile (· != ':')
    let value := text.toList.drop (name.length + 1)
    return .attribute (lower (String.ofList name)) (lower (String.ofList value))
  else return .part (lower (← query.strBy "lower"))

def isShownAs (text : String) (v : Json) : Bool := lower v.display == text

def amongAttributes (n : Json) (name value : String) : Except Fault Bool := do
  if ← n.holds "attributes" then
    let attributes ← n.need "attributes"
    if attributes.truthy then return isShownAs value (← attributes.getD name "")
    else return false
  else return false

def hasDecorator (n : Json) (text : String) : Except Fault Bool := do
  let signature ← n.getD "signature" (.obj [])
  if signature.truthy then
    let decorators ← (← signature.getD "decorators" (.arr [])).elements
    decorators.anyM fun d ↦ do
      return occursIn text (lower (← d.strBy "lower"))
  else return false

/-- Whether decorators are asked for and one of them has the given text in it. -/
def amongDecorators (n : Json) (name value : String) : Except Fault Bool :=
  if name == "decorator" || name == "@" then hasDecorator n value else .ok false

/-- Whether a node has an attribute of a value: among its attributes, its decorators or its own
fields. -/
def hasAttribute (n : Json) (name value : String) : Except Fault Bool := do
  let among ← amongAttributes n name value
  let decorated ← amongDecorators n name value
  return among || decorated || isShownAs value (← n.getD name "")

/-- Whether a node is of a wanted kind; an empty wish allows all. -/
def isOfType (n : Json) (type : Json) : Except Fault Bool := do
  if type.truthy then
    let actual := lower (← (← n.getD "node_type" "").strBy "lower")
    return actual == lower (← type.strBy "lower")
  else return true

def isWanted (w : Wanted) (n : Json) : Except Fault Bool := do
  match w with
  | .attribute name value => hasAttribute n name value
  | .part text =>
    let name := lower (← (← n.getD "name" "").strBy "lower")
    let id := lower (← (← n.getD "id" "").strBy "lower")
    return occursIn text name || occursIn text id

def searchLimit : Nat := 50

def search (g query type : Json) : Except Fault (List Json) := do
  let wanted ← Wanted.ofQuery query
  let found ← (← nodesOf g).filterM fun n ↦ do
    if ← isOfType n type then isWanted wanted n else return false
  return found.take searchLimit

/-! ## Dependencies -/

/-- Whether a level of nesting is still above a depth. -/
def reaches (level : Nat) (depth : Json) : Except Fault Bool :=
  match depth with
  | .int d => .ok (d ≤ level)
  | .bool b => .ok ((if b then 1 else 0) ≤ level)
  | .float x => .ok (x.le (Double.ofInt level))
  | v => .error (.badOperand s!"'>=' not supported between instances of 'int' and '{v.kind.name}'")

def neighbour (direction : Json) (e : Endpoints) (start : Json) : Json :=
  if direction.same "outgoing" && e.source.same start then e.target
  else if direction.same "incoming" && e.target.same start then e.source
  else .null

abbrev Tracing := StateT (List Key) (Except Fault)

def nodeType (g id : Json) : Except Fault Json := do
  match ← node? g id with
  | some n => n.get "node_type"
  | none => return "Unknown"

/-- What one edge adds to the nodes reached from a node: the node that it leads to, unless that was
reached before, and all that is reached further from there. -/
def traceEdge (g direction : Json) (level : Nat) (start : Json)
    (further : Json → Tracing (Table Key Json)) (results : Table Key Json) (edge : Json) :
    Tracing (Table Key Json) := do
  let e ← endpoints edge
  let next := neighbour direction e start
  if next.truthy then
    let key ← next.key
    if results.contains key then return results
    else
      let described := results.put key (.obj [("relation", e.kind), ("depth", .int (level + 1)),
        ("node_type", ← nodeType g next)])
      return described.merge (← further next)
  else return results

/-- What is reached from a node, level by level. Every node is entered once; a node that is met
again takes the description of the later meeting. The steps bound the levels. -/
def traceFrom (g direction depth : Json) (edges : Except Fault (List Json)) :
    (steps : Nat) → (level : Nat) → (start : Json) → Tracing (Table Key Json)
  | 0, _, _ => throw (.tooDeep "")
  | steps + 1, level, start => do
    let key ← start.key
    let met ← get
    if met.contains key then return []
    else if ← reaches level depth then return []
    else
      set (key :: met)
      (← edges).foldlM
        (traceEdge g direction level start (traceFrom g direction depth edges steps (level + 1))) []

def traceLimit : Nat := 985

/-- The most levels that a trace can have: every level enters another node. -/
def traceBound (edges : Except Fault (List Json)) : Nat :=
  match edges with
  | .ok es => 2 * es.length + 2
  | .error _ => 1

def endIds (direction : Json) (edges : List Json) : Except Fault (List Json) :=
  edges.mapM fun edge ↦ do
    let e ← endpoints edge
    return if direction.same "outgoing" then e.target else e.source

/-- All that a node depends on, or all that depends on it, up to a depth. -/
def trace (g start direction depth : Json) : Except Fault Json := do
  let edges := edgesOf g
  let steps := min traceLimit (traceBound edges)
  let (results, _) ← (traceFrom g direction depth edges steps 0 start).run []
  if results.isEmpty then return .obj []
  else return .ofKeys (Json.memberNames (← endIds direction (← edges))) results

/-! ## Calls -/

def lastPart (id : Json) : Except Fault Json := do
  let text ← id.strBy "split"
  return .str (((splitBy "::" text).getLast?).getD "")

/-- One call, told from the node at its other end. -/
def callEntry (g e other : Json) (word : String) : Except Fault Json := do
  let node ← node? g other
  let name ← match node with
    | some n => n.get "name"
    | none => lastPart other
  let type ← match node with
    | some n => n.get "node_type"
    | none => pure "Unknown"
  return .obj [(word, other), (word ++ "_name", name), (word ++ "_type", type),
    ("call_line", ← e.get "call_line")]

def callGraph (g id : Json) : Except Fault Json := do
  let edges ← edgesOf g
  let isCall (e : Endpoints) : Bool := e.kind.same "calls"
  let calls ← edges.filterMapM fun edge ↦ do
    let e ← endpoints edge
    if e.source.same id && isCall e then return some (← callEntry g edge e.target "target")
    else return none
  let calledBy ← edges.filterMapM fun edge ↦ do
    let e ← endpoints edge
    if e.target.same id && isCall e then return some (← callEntry g edge e.source "caller")
    else return none
  return .obj [("node_id", id), ("calls", .arr calls), ("called_by", .arr calledBy),
    ("summary", .obj [("outgoing_count", .int calls.length), ("incoming_count", .int calledBy.length)])]

/-! ## Files -/

/-- The order of values that can be compared: texts with texts and numbers with numbers. -/
def leValue (a b : Json) : Except Fault Bool :=
  match a, b with
  | .str s, .str t => .ok (decide (s ≤ t))
  | .float x, .float y => .ok (x.le y)
  | .float x, w =>
    match w.asInt? with
    | some i => .ok (x.le (Double.ofInt i))
    | none => .error (uncomparable a b)
  | v, .float y =>
    match v.asInt? with
    | some i => .ok ((Double.ofInt i).le y)
    | none => .error (uncomparable a b)
  | v, w =>
    match v.asInt?, w.asInt? with
    | some i, some j => .ok (decide (i ≤ j))
    | _, _ => .error (uncomparable a b)
where
  uncomparable (a b : Json) : Fault := .badOperand
    s!"'<' not supported between instances of '{a.kind.name}' and '{b.kind.name}'"

def insertValue (v : Json) : List Json → Except Fault (List Json)
  | [] => .ok [v]
  | w :: rest => do
    if ← leValue v w then return v :: w :: rest else return w :: (← insertValue v rest)

def sortValues (vs : List Json) : Except Fault (List Json) := vs.foldrM insertValue []

/-- The paths of all files that nodes name, in order. -/
def filesOf (g : Json) : Except Fault (List Json) := do
  let paths ← (← nodesOf g).mapM fun n ↦ n.get "file_path"
  let distinct ← (paths.filter Json.truthy).foldlM (fun (seen : Table Key Json) p ↦ do
    let k ← p.key
    return if seen.contains k then seen else seen ++ [(k, p)]) []
  sortValues distinct.values
def ownershipEdges : List String :=
  ["defines", "contains_class", "contains_method", "contains_member", "contains_variable"]

def isFileNode (n : Json) : Except Fault Bool := do
  return (← n.get "node_type").same "File"

def fileIds (nodes : List Json) : Except Fault (List Json) :=
  nodes.filterMapM fun n ↦ do
    if ← isFileNode n then
      let id ← n.need "id"
      let _ ← id.key
      return some id
    else return none

def ownedBy (edges : List Json) : Except Fault (Table Key (List Json)) :=
  edges.foldlM (fun owned e ↦ do
    let isOwnership ← match ← (← e.need "type").key with
      | .str t => pure (ownershipEdges.contains t)
      | _ => pure false
    if isOwnership then
      let source ← (← e.need "source").key
      return owned.push source (← e.need "target")
    else return owned) []

/-- Gives the children of a node their owner, unless they have one; also the children that got
one. -/
def claimChildren (owner : Json) : List Json → Table Key Json → Except Fault (Table Key Json × List Json)
  | [], owners => .ok (owners, [])
  | child :: rest, owners => do
    let k ← child.key
    if owners.contains k then claimChildren owner rest owners
    else
      let (owners, claimed) ← claimChildren owner rest (owners.put k owner)
      return (owners, child :: claimed)

/-- Walks the queue; every node enters it once. -/
def spreadOwners (owned : Table Key (List Json)) :
    (steps : Nat) → (queue : List Json) → Table Key Json → Except Fault (Table Key Json)
  | 0, _, owners => .ok owners
  | _, [], owners => .ok owners
  | steps + 1, node :: queue, owners => do
    let k ← node.key
    let owner := (owners.get? k).getD .null
    let (owners, claimed) ← claimChildren owner ((owned.get? k).getD []) owners
    spreadOwners owned steps (queue ++ claimed) owners

def ownersOf (g : Json) : Except Fault (Table Key Json) := do
  let nodes ← nodesOf g
  let files ← fileIds nodes
  let roots ← files.foldlM (fun (owners : Table Key Json) f ↦ do
    return owners.put (← f.key) f) []
  let edges ← edgesOf g
  let owned ← ownedBy edges
  spreadOwners owned (files.length + edges.length + 1) files roots

/-- The owners as an object, in which files are named before what they own. -/
def ownership (g : Json) : Except Fault Json := do
  let owners ← ownersOf g
  let files ← fileIds (← nodesOf g)
  let owned ← ownedBy (← edgesOf g)
  return .ofKeys (Json.memberNames (files ++ owned.values.flatten)) owners

end CodeAtlas.Graph
