import CodeAtlas.Proofs.Tracing

/-!
# Graphs with all edges turned round

What depends on a node is what the node depends on in the graph whose edges are turned round, and
the calls that it receives are the calls that it makes there. Both directions of a trace and both
lists of calls read the ends of an edge under the same names, so the answers agree entry by entry,
for documents of any shape.
-/

namespace CodeAtlas.Graph

open List Fallible Json Table

/-- The name of the other end of an edge; other names stay. -/
def turnedName (name : String) : String :=
  if name = "source" then "target"
  else if name = "target" then "source"
  else if name = "from" then "to"
  else if name = "to" then "from"
  else name

lemma turnedName_turnedName (name : String) : turnedName (turnedName name) = name := by
  unfold turnedName
  split_ifs <;> simp_all

/-- An edge whose ends have changed places. -/
def turned (edge : Json) : Json :=
  match edge with
  | .obj m => .obj (m.map fun e ↦ (turnedName e.1, e.2))
  | v => v

/-- The same for a list of edges, whatever else a graph may have in its place. -/
def turnedAll (edges : Json) : Json :=
  match edges with
  | .arr items => .arr (items.map turned)
  | v => v

/-- A graph with all its edges turned round. -/
def reverse (g : Json) : Json :=
  match g with
  | .obj m => .obj (m.map fun e ↦ (e.1, if e.1 = "edges" then turnedAll e.2 else e.2))
  | v => v

def Endpoints.turned (e : Endpoints) : Endpoints := ⟨e.target, e.source, e.kind⟩

lemma get?_map_turnedName (m : List (String × Json)) (name : String) :
    get? (m.map fun e ↦ (turnedName e.1, e.2)) name = get? m (turnedName name) := by
  induction m with
  | nil => rfl
  | cons e rest ih =>
    have hname : turnedName e.1 = name ↔ e.1 = turnedName name :=
      ⟨fun h ↦ by rw [← h, turnedName_turnedName], fun h ↦ by rw [h, turnedName_turnedName]⟩
    simp only [map_cons, get?_cons, hname, ih]

lemma get_turned (edge : Json) (name : String) :
    (turned edge).get name = edge.get (turnedName name) := by
  cases edge with
  | obj m => rw [turned, Json.get, Json.get, Json.getD, Json.getD, get?_map_turnedName]
  | _ => rfl

lemma endpoints_turned (edge : Json) :
    endpoints (turned edge) = Endpoints.turned <$> endpoints edge := by
  simp only [endpoints, get_turned, turnedName]
  cases edge <;> rfl

lemma getD_reverse_of_ne (g : Json) {name : String} (h : name ≠ "edges") (default : Json) :
    (reverse g).getD name default = g.getD name default := by
  cases g with
  | obj m =>
    rw [reverse, Json.getD, Json.getD]
    induction m with
    | nil => rfl
    | cons e rest ih =>
      by_cases hname : e.1 = name
      · simp [get?_cons, hname, h]
      · simpa [get?_cons, hname] using ih
  | _ => rfl

lemma nodesOf_reverse (g : Json) : nodesOf (reverse g) = nodesOf g := by
  rw [nodesOf, getD_reverse_of_ne g (by decide), nodesOf]

lemma node?_reverse (g id : Json) : node? (reverse g) id = node? g id := by
  rw [node?, nodesOf_reverse, node?]

lemma elements_turnedAll (edges : Json) :
    (turnedAll edges).elements = map turned <$> edges.elements := by
  cases edges with
  | obj m => simp [turnedAll, elements, Functor.map, Except.map, turned]
  | str s => simp [turnedAll, elements, Functor.map, Except.map, turned]
  | _ => rfl

lemma edgesOf_reverse (g : Json) : edgesOf (reverse g) = map turned <$> edgesOf g := by
  cases g with
  | obj m =>
    have hmember : (get? (m.map fun e ↦ (e.1, if e.1 = "edges" then turnedAll e.2 else e.2))
        "edges").getD (.arr []) = turnedAll ((get? m "edges").getD (.arr [])) := by
      induction m with
      | nil => rfl
      | cons e rest ih =>
        by_cases hname : e.1 = "edges"
        · simp [get?_cons, hname]
        · simpa [get?_cons, hname] using ih
    change elements (Option.getD _ _) = _
    rw [hmember, elements_turnedAll]
    rfl
  | _ => rfl

namespace Direction

def opposite : Direction → Direction
  | .outgoing => .incoming
  | .incoming => .outgoing

lemma ends_turned (d : Direction) (e : Endpoints) : d.opposite.ends e.turned = d.ends e := by
  cases d <;> rfl

lemma neighbour_turned (d : Direction) (e : Endpoints) (start : Json) :
    neighbour d.opposite.word e.turned start = neighbour d.word e start := by
  cases d <;> simp [neighbour, word, opposite, Endpoints.turned, same]

end Direction

section

variable (g depth : Json) (d : Direction)

lemma nodeType_reverse (id : Json) : nodeType (reverse g) id = nodeType g id := by
  rw [nodeType, node?_reverse, nodeType]

lemma traceEdge_turned (level : Nat) (start : Json) (further : Json → Tracing (Table Key Json))
    (results : Table Key Json) (edge : Json) :
    traceEdge (reverse g) d.opposite.word level start further results (turned edge) =
      traceEdge g d.word level start further results edge := by
  rw [traceEdge, traceEdge, endpoints_turned]
  cases endpoints edge with
  | error f => rfl
  | ok e =>
    change (if (neighbour d.opposite.word e.turned start).truthy = true then _ else _) =
      (if (neighbour d.word e start).truthy = true then _ else _)
    simp only [d.neighbour_turned, nodeType_reverse]
    rfl

/-- So does every part of a trace; the induction is on its levels. -/
lemma traceFrom_reverse (edges : Except Fault (List Json)) (steps level : Nat) (start : Json) :
    traceFrom (reverse g) d.opposite.word depth (map turned <$> edges) steps level start =
      traceFrom g d.word depth edges steps level start := by
  induction steps generalizing level start with
  | zero => rfl
  | succ steps ih =>
    have hfurther : traceFrom (reverse g) d.opposite.word depth (map turned <$> edges) steps
        (level + 1) = traceFrom g d.word depth edges steps (level + 1) := funext (ih (level + 1))
    have hread (next : List Json → Tracing (Table Key Json)) :
        (liftM (map turned <$> edges) : Tracing (List Json)) >>= next =
          (liftM edges : Tracing (List Json)) >>= fun es ↦ next (es.map turned) := by
      cases edges <;> rfl
    simp only [traceFrom, hfurther, hread, foldlM_map, traceEdge_turned]

lemma endIds_turned (edges : List Json) :
    endIds d.opposite.word (edges.map turned) = endIds d.word edges := by
  rw [endIds, endIds, mapM_map]
  congr 1
  funext edge
  rw [Function.comp_apply, endpoints_turned]
  cases endpoints edge with
  | error f => rfl
  | ok e => cases d <;> rfl

lemma trace_reverse (start : Json) :
    trace (reverse g) start d.opposite.word depth = trace g start d.word depth := by
  have hbound (edges : Except Fault (List Json)) : traceBound (map turned <$> edges) =
      traceBound edges := by
    cases edges with
    | error f => rfl
    | ok es => simp [traceBound, Functor.map, Except.map]
  simp only [trace, edgesOf_reverse, traceFrom_reverse, hbound, bind_map_left, endIds_turned]

end

/-- The node at the other end of a call, as it is told. -/
structure Peer where
  id : Json
  name : Json
  type : Json
  line : Json

/-- The entry of a peer under a word for its part in the call. -/
def Peer.entry (word : String) (p : Peer) : Json :=
  .obj [(word, p.id), (word ++ "_name", p.name), (word ++ "_type", p.type), ("call_line", p.line)]

def peerOf (g edge other : Json) : Except Fault Peer := do
  match ← node? g other with
  | some n => return ⟨other, ← n.get "name", ← n.get "node_type", ← edge.get "call_line"⟩
  | none => return ⟨other, ← lastPart other, .str "Unknown", ← edge.get "call_line"⟩

lemma callEntry_eq (g edge other : Json) (word : String) :
    callEntry g edge other word = Peer.entry word <$> peerOf g edge other := by
  rw [callEntry, peerOf, map_bind]
  refine bind_congr fun node ↦ ?_
  cases node with
  | none =>
    simp only [map_bind, map_pure]
    rfl
  | some n =>
    simp only [map_bind, map_pure]
    rfl

/-- The peer of a node in a call that leads from it, in a direction. -/
def peerAlong? (g : Json) (d : Direction) (id edge : Json) : Except Fault (Option Peer) := do
  let e ← endpoints edge
  if (d.ends e).1.same id && e.kind.same (.str "calls") then
    return some (← peerOf g edge (d.ends e).2)
  else return none

def peers (g : Json) (d : Direction) (id : Json) (edges : List Json) : Except Fault (List Peer) :=
  edges.filterMapM (peerAlong? g d id)

/-- The answer about the calls of a node, with the peers that it calls and those that call it. -/
def callPage (id : Json) (called callers : List Peer) : Json :=
  .obj [("node_id", id), ("calls", .arr (called.map (Peer.entry "target"))),
    ("called_by", .arr (callers.map (Peer.entry "caller"))),
    ("summary", .obj [("outgoing_count", .int called.length),
      ("incoming_count", .int callers.length)])]

lemma filterMapM_map {α β γ : Type} {f : α → Except Fault (Option β)} (h : β → γ) (xs : List α) :
    xs.filterMapM (fun x ↦ Option.map h <$> f x) = map h <$> xs.filterMapM f := by
  induction xs with
  | nil => rfl
  | cons x xs ih =>
    simp only [filterMapM_cons, bind_map_left, map_bind, ih]
    refine bind_congr fun found ↦ ?_
    cases found with
    | none => rfl
    | some y => simp

lemma filterMapM_callEntry (g : Json) (d : Direction) (id : Json) (word : String)
    (edges : List Json) : edges.filterMapM (fun edge ↦ do
      let e ← endpoints edge
      if (d.ends e).1.same id && e.kind.same "calls" then
        return some (← callEntry g edge (d.ends e).2 word)
      else return none) = map (Peer.entry word) <$> peers g d id edges := by
  rw [peers, ← filterMapM_map]
  congr 1
  funext edge
  rw [peerAlong?, map_bind]
  refine bind_congr fun e ↦ ?_
  split
  · rw [callEntry_eq, bind_map_left, map_bind]
    rfl
  · rfl

lemma callGraph_eq (g id : Json) : callGraph g id = (do
      let edges ← edgesOf g
      let called ← peers g .outgoing id edges
      let callers ← peers g .incoming id edges
      return callPage id called callers) := by
  refine bind_congr fun edges ↦ ?_
  refine (congrArg (· >>= _) (filterMapM_callEntry g .outgoing id "target" edges)).trans ?_
  rw [bind_map_left]
  refine bind_congr fun called ↦ ?_
  refine (congrArg (· >>= _) (filterMapM_callEntry g .incoming id "caller" edges)).trans ?_
  rw [bind_map_left]
  simp only [callPage, length_map]

lemma peerAlong?_turned (g : Json) (d : Direction) (id edge : Json) :
    peerAlong? (reverse g) d.opposite id (turned edge) = peerAlong? g d id edge := by
  have hpeer (other : Json) : peerOf (reverse g) (turned edge) other = peerOf g edge other := by
    simp only [peerOf, node?_reverse, get_turned]
    rfl
  rw [peerAlong?, peerAlong?, endpoints_turned, bind_map_left]
  simp only [d.ends_turned, hpeer]
  rfl

lemma peers_turned (g : Json) (d : Direction) (id : Json) (edges : List Json) :
    peers (reverse g) d.opposite id (edges.map turned) = peers g d id edges := by
  rw [peers, peers]
  induction edges with
  | nil => rfl
  | cons edge rest ih =>
    rw [map_cons, filterMapM_cons, filterMapM_cons, peerAlong?_turned, ih]

/-- In a graph whose edges are turned round, a trace in the other direction gives the same answer,
or fails alike, and the calls that a node makes and receives have changed places. -/
theorem reverse_mirrors (g id depth : Json) (d : Direction) :
    trace g id d.word depth = trace (reverse g) id d.opposite.word depth ∧
    ((∃ called callers, callGraph g id = .ok (callPage id called callers) ∧
        callGraph (reverse g) id = .ok (callPage id callers called)) ∨
      (∃ f, callGraph g id = .error f) ∧ ∃ f, callGraph (reverse g) id = .error f) := by
  refine ⟨(trace_reverse g depth d id).symm, ?_⟩
  have hreverse : callGraph (reverse g) id = (do
      let edges ← edgesOf g
      let called ← peers g .incoming id edges
      let callers ← peers g .outgoing id edges
      return callPage id called callers) := by
    rw [callGraph_eq, edgesOf_reverse, bind_map_left]
    refine bind_congr fun edges ↦ ?_
    rw [← peers_turned g .incoming, ← peers_turned g .outgoing]
    rfl
  rw [callGraph_eq, hreverse]
  -- Which list is looked up first decides which fault is told, but not whether one is.
  cases edgesOf g with
  | error f => exact .inr ⟨⟨f, rfl⟩, f, rfl⟩
  | ok edges =>
    cases hout : peers g .outgoing id edges with
    | error f =>
      refine .inr ⟨⟨f, by simp [hout, bind, Except.bind]⟩, ?_⟩
      cases hin : peers g .incoming id edges with
      | error f' => exact ⟨f', by simp [hin, bind, Except.bind]⟩
      | ok callers => exact ⟨f, by simp [hin, hout, bind, Except.bind]⟩
    | ok called =>
      cases hin : peers g .incoming id edges with
      | error f =>
        exact .inr ⟨⟨f, by simp [hin, hout, bind, Except.bind]⟩, f,
          by simp [hin, bind, Except.bind]⟩
      | ok callers =>
        refine .inl ⟨called, callers, ?_, ?_⟩
        · simp [hin, hout, bind, Except.bind, pure, Except.pure]
        · simp [hin, hout, bind, Except.bind, pure, Except.pure]

end CodeAtlas.Graph
