import CodeAtlas.Graph.Notes
import CodeAtlas.Proofs.DocumentLaws

/-!
# How far notes have come

The statistics of notes take the totals from the graph and count notes and resolutions in the noted
graph. The parts always add up to the totals, but nothing ties the two graphs to each other: what is
left is negative as soon as the noted graph has more notes than the graph has nodes. That cannot be
as long as each note belongs to a node of its own that the graph still has.
-/

namespace CodeAtlas.Graph.Notes

open Fallible List Json Progress

variable {graph noted : Json} {nodes tickets marked settled : List Json}

def isNoted (n : Json) : Bool := (n.member? "llm_enrichment").isSome

def isProcessed (a : Json) : Bool := (a.member? "llm_resolution").isSome

def isResolved (a : Json) : Bool :=
  (a.member? "llm_resolution").bind (·.member? "status") = some (.str "resolved")

def isUnresolved (a : Json) : Bool := isProcessed a && !isResolved a

/-- The nodes and tickets of a graph, none where it has no list of them. -/
structure Counted (graph : Json) (nodes tickets : List Json) : Prop where
  nodes : graph.getD "nodes" (.arr []) = .ok (.arr nodes)
  tickets : graph.getD "ambiguities" (.arr []) = .ok (.arr tickets)

/-- An object whose resolution, if it has one, is an object as well. -/
def IsTicket (a : Json) : Prop := a.IsObject ∧ ∀ r, a.member? "llm_resolution" = some r → r.IsObject

/-- The nodes and tickets that may carry notes: those of the noted graph, and none if there is no
such graph. -/
inductive NotesIn : Json → List Json → List Json → Prop
  | absent : NotesIn .null [] []
  | graph {noted : Json} {nodes tickets : List Json} (h : Counted noted nodes tickets)
      (hnodes : ∀ n ∈ nodes, n.IsObject) (htickets : ∀ a ∈ tickets, IsTicket a) :
      NotesIn noted nodes tickets

lemma foldlM_countNode (h : ∀ n ∈ nodes, n.IsObject) (p : Progress) :
    nodes.foldlM countNode p = .ok { p with noted := p.noted + nodes.countP isNoted } := by
  induction nodes generalizing p with
  | nil => rfl
  | cons n rest ih =>
    obtain ⟨hn, hrest⟩ := forall_mem_cons.1 h
    have hcount : p.countNode n = .ok { p with noted := p.noted + if isNoted n then 1 else 0 } := by
      rw [countNode, holds_eq hn, isNoted]
      cases n.member? "llm_enrichment" <;> rfl
    rw [foldlM_cons, hcount, countP_cons, Nat.add_comm (countP _ _), ← Nat.add_assoc]
    exact ih hrest _

lemma foldlM_countTicket (h : ∀ a ∈ tickets, IsTicket a) (p : Progress) :
    tickets.foldlM countTicket p = .ok { p with
      resolved := p.resolved + tickets.countP isResolved
      unresolved := p.unresolved + tickets.countP isUnresolved } := by
  induction tickets generalizing p with
  | nil => rfl
  | cons a rest ih =>
    obtain ⟨⟨ha, hr⟩, hrest⟩ := forall_mem_cons.1 h
    have hcount : p.countTicket a = .ok { p with
        resolved := p.resolved + if isResolved a then 1 else 0
        unresolved := p.unresolved + if isUnresolved a then 1 else 0 } := by
      rw [countTicket, holds_eq ha, isUnresolved, isProcessed, isResolved]
      cases hmember : a.member? "llm_resolution" with
      | none => rfl
      | some r =>
        have hr := hr r hmember
        simp only [need_eq_ok.2 hmember, get_eq_ok.2 ⟨hr, rfl⟩, Option.isSome_some, if_true,
          Option.bind_some, bind, Except.bind]
        by_cases hstatus : r.member? "status" = some (.str "resolved")
        · simp [hstatus, same, pure, Except.pure]
        · have hother : ((r.member? "status").getD .null).same "resolved" = false := by
            rw [← Bool.not_eq_true, same_str]
            cases hs : r.member? "status" with
            | none => simp
            | some v => simpa [hs] using hstatus
          simp [hstatus, hother, pure, Except.pure]
    rw [foldlM_cons, hcount, countP_cons, countP_cons, Nat.add_comm (countP _ _),
      Nat.add_comm (countP _ _), ← Nat.add_assoc, ← Nat.add_assoc]
    exact ih hrest _

lemma progress_eq (hgraph : Counted graph nodes tickets) (hnoted : NotesIn noted marked settled) :
    progress graph noted = .ok {
      nodes := nodes.length, noted := marked.countP isNoted, tickets := tickets.length,
      resolved := settled.countP isResolved, unresolved := settled.countP isUnresolved } := by
  rw [progress, hgraph.nodes, hgraph.tickets]
  cases hnoted with
  | absent => rfl
  | graph h hnodes htickets =>
    cases hempty : noted.truthy with
    | true =>
      rw [nodesOf, h.nodes, h.tickets]
      change (marked.foldlM countNode _ >>= settled.foldlM countTicket) = _
      rw [foldlM_countNode hnodes]
      exact (foldlM_countTicket htickets _).trans (by simp)
    | false =>
      -- Only an empty object counts as false, and it has no lists.
      obtain ⟨⟨m, rfl⟩, hmembers⟩ := getD_eq_ok.1 h.nodes
      cases m with
      | cons e rest => cases hempty
      | nil =>
        cases hmembers
        cases h.tickets
        rfl

lemma countP_isProcessed (tickets : List Json) :
    tickets.countP isProcessed = tickets.countP isResolved + tickets.countP isUnresolved := by
  have hresolved (a : Json) (h : isResolved a = true) : isProcessed a = true := by
    rw [isResolved, decide_eq_true_iff, Option.bind_eq_some_iff] at h
    obtain ⟨r, hr, -⟩ := h
    rw [isProcessed, hr, Option.isSome_some]
  induction tickets with
  | nil => rfl
  | cons a rest ih =>
    rw [countP_cons, countP_cons, countP_cons, ih, isUnresolved]
    cases hr : isResolved a with
    | true => simp [hresolved a hr, Nat.add_right_comm]
    | false => simp [Nat.add_assoc]

/-- Whether each of some items has an id of its own among those of others. -/
def OwnIdsAmong (items others : List Json) : Prop :=
  (items.map (·.member? "id")).Nodup ∧ items.map (·.member? "id") ⊆ others.map (·.member? "id")

lemma OwnIdsAmong.length_le {items others : List Json} (h : OwnIdsAmong items others) :
    items.length ≤ others.length := by
  simpa using (h.1.subperm h.2).length_le

/-- The figures add up to the totals for every two graphs. What is left is not negative just if
there are no more notes than nodes, and no more tickets worked on than tickets; so it is if all of
them have ids of their own in the graph. -/
theorem statistics_add_up (hgraph : Counted graph nodes tickets)
    (hnoted : NotesIn noted marked settled)
    (now : String) : ∃ p pending unprocessed, progress graph noted = .ok p ∧
      (p.document now).member? "nodes" = some (.obj [("total", .int nodes.length),
        ("enriched", .int (marked.countP isNoted)), ("pending", .int pending),
        ("coverage_percent", p.coverage)]) ∧
      (p.document now).member? "ambiguities" = some (.obj [("total", .int tickets.length),
        ("resolved", .int (settled.countP isResolved)),
        ("unresolved", .int (settled.countP isUnresolved)), ("not_processed", .int unprocessed)]) ∧
      marked.countP isNoted + pending = nodes.length ∧
      settled.countP isResolved + settled.countP isUnresolved + unprocessed = tickets.length ∧
      (0 ≤ pending ↔ marked.countP isNoted ≤ nodes.length) ∧
      (0 ≤ unprocessed ↔ settled.countP isProcessed ≤ tickets.length) ∧
      (OwnIdsAmong (marked.filter isNoted) nodes → 0 ≤ pending) ∧
      (OwnIdsAmong (settled.filter isProcessed) tickets → 0 ≤ unprocessed) := by
  have hprocessed := countP_isProcessed settled
  have hmarked (h : OwnIdsAmong (marked.filter isNoted) nodes) :=
    countP_eq_length_filter ▸ h.length_le
  have hsettled (h : OwnIdsAmong (settled.filter isProcessed) tickets) :=
    countP_eq_length_filter ▸ h.length_le
  refine ⟨_, nodes.length - marked.countP isNoted,
    tickets.length - settled.countP isResolved - settled.countP isUnresolved,
    progress_eq hgraph hnoted, rfl,
    rfl, ?_, ?_, ?_, ?_, fun h ↦ ?_, fun h ↦ ?_⟩
  · omega
  · omega
  · omega
  · omega
  · have := hmarked h
    omega
  · have := hsettled h
    omega

/-- A graph that has lost a node since the notes were written. -/
def rebuiltGraph :
    Json := .obj [("nodes", .arr [.obj [("id", "a.py")]]), ("ambiguities", .arr [.obj []])]

def notedNode (id : String) : Json := .obj [("id", id), ("llm_enrichment", .obj [])]

def resolvedTicket : Json := .obj [("llm_resolution", .obj [("status", "resolved")])]

def earlierNotes : Json :=
  .obj [("nodes", .arr [notedNode "a.py", notedNode "b.py"]),
    ("ambiguities", .arr [resolvedTicket])]

lemma notesIn_earlierNotes : NotesIn earlierNotes [notedNode "a.py", notedNode "b.py"]
    [resolvedTicket] := by
  refine .graph ⟨rfl, rfl⟩ ?_ ?_
  · simp [notedNode, IsObject]
  · simp [IsTicket, resolvedTicket, IsObject, Table.get?]

theorem statistics_add_up_earlierNotes : Counted rebuiltGraph [.obj [("id", "a.py")]] [.obj []] ∧
    NotesIn earlierNotes [notedNode "a.py", notedNode "b.py"] [resolvedTicket] ∧
    ∃ p, ∃ pending unprocessed : Int, progress rebuiltGraph earlierNotes = .ok p ∧
      2 + pending = 1 ∧ 1 + 0 + unprocessed = 1 := by
  have hgraph : Counted rebuiltGraph [.obj [("id", "a.py")]] [.obj []] := ⟨rfl, rfl⟩
  obtain ⟨p, pending, unprocessed, hp, -, -, hnodes, htickets, -⟩ :=
    statistics_add_up hgraph notesIn_earlierNotes ""
  exact ⟨hgraph, notesIn_earlierNotes, p, pending, unprocessed, hp, hnodes, htickets⟩

/-- A note on a node that is gone counts as well, so that less than nothing is left. -/
theorem pending_negative : ∃ p, progress rebuiltGraph earlierNotes = .ok p ∧
    (p.document "").member? "nodes" = some (.obj [("total", .int 1), ("enriched", .int 2),
      ("pending", .int (-1)), ("coverage_percent", p.coverage)]) :=
  ⟨_, rfl, rfl⟩

end CodeAtlas.Graph.Notes
