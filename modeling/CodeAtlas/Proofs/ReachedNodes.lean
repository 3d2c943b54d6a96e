import CodeAtlas.Proofs.Tracing

/-!
# How far a trace reaches

Whatever a trace tells is true at every depth: an entry stands for a walk of the depth that is told,
whose last edge is of the kind that is told. A trace whose depth does not bind tells of all that can
be reached: no trail is longer than the list of edges, so every node that is told has been entered,
and all its edges have been followed. The steps that bound the levels do not matter, unless a trace
runs out of them.
-/

namespace CodeAtlas.Graph

open Fallible List Table

variable {id : String}

/-- The first part of a trace runs out of steps, or ends just as the second one does. -/
def EndsEarly {α : Type} (x y : Tracing α) : Prop :=
  ∀ met, x.run met = .error (.tooDeep "") ∨ x.run met = y.run met

namespace EndsEarly

variable {α β : Type}

lemma refl (x : Tracing α) : EndsEarly x x := fun _ ↦ .inr rfl

lemma bind {x y : Tracing α} {f f' : α → Tracing β} (h : EndsEarly x y)
    (hf : ∀ a, EndsEarly (f a) (f' a)) : EndsEarly (x >>= f) (y >>= f') := by
  intro met
  rw [StateT.run_bind, StateT.run_bind]
  rcases h met with hx | hx
  · rw [hx]
    exact .inl rfl
  · rw [hx]
    cases y.run met with
    | error e => exact .inr rfl
    | ok p => exact hf p.1 p.2

lemma foldlM {f f' : β → α → Tracing β} (hf : ∀ b a, EndsEarly (f b a) (f' b a)) (xs : List α)
    (b : β) : EndsEarly (xs.foldlM f b) (xs.foldlM f' b) := by
  induction xs generalizing b with
  | nil => exact .refl _
  | cons x xs ih =>
    exact (hf b x).bind ih

end EndsEarly

lemma endsEarly_traceEdge (g direction : Json) (level : Nat) (start : Json)
    {further further' : Json → Tracing (Table Key Json)}
    (h : ∀ next, EndsEarly (further next) (further' next)) (results : Table Key Json)
    (edge : Json) : EndsEarly (traceEdge g direction level start further results edge)
      (traceEdge g direction level start further' results edge) := by
  refine .bind (.refl _) fun e ↦ ?_
  dsimp only
  split
  · refine .bind (.refl _) fun key ↦ ?_
    split
    · exact .refl _
    · exact .bind (.refl _) fun type ↦ .bind (h _) fun _ ↦ .refl _
  · exact .refl _

/-- More steps do not change the answer of a trace that does not run out of them. -/
lemma endsEarly_traceFrom (g direction depth : Json) (edges : Except Fault (List Json))
    {steps steps' : Nat} (hle : steps ≤ steps') (level : Nat) (start : Json) :
    EndsEarly (traceFrom g direction depth edges steps level start)
      (traceFrom g direction depth edges steps' level start) := by
  induction steps generalizing steps' level start with
  | zero => exact fun _ ↦ .inl rfl
  | succ steps ih =>
    obtain ⟨more, rfl⟩ : ∃ more, steps' = more + 1 := Nat.exists_eq_add_one.2 (by omega)
    refine .bind (.refl _) fun key ↦ .bind (.refl _) fun met ↦ ?_
    split
    · exact .refl _
    · refine .bind (.refl _) fun reached ↦ ?_
      split
      · exact .refl _
      · refine .bind (.refl _) fun _ ↦ .bind (.refl _) fun es ↦ ?_
        exact .foldlM (endsEarly_traceEdge g direction level start (ih (by omega) (level + 1)))
          es []

/-- There is a walk of a number of edges, the last of which is of a kind. -/
def WalkBy (d : Direction) (edges : List Json) (start : String) (n : Nat) (kind : Json)
    (b : String) : Prop :=
  ∃ m a, n = m + 1 ∧ Walk (Leads d edges) start m a ∧ LeadsBy d edges kind a b

section

variable {g : Json} {edges nodes : List Json} {d : Direction} {start : String} {depth : Int}
  {members : Table String Json} {met : List Key}

lemma Gathered.exists_walkBy (hg : TextIds g edges) (hnodes : nodesOf g = .ok nodes)
    (h : Gathered g d edges start depth [] (keyed members) met)
    {entry : Json} (hmem : (id, entry) ∈ members) :
    ∃ (m : Nat) (kind : Json), 1 ≤ m ∧ (m : Int) ≤ depth ∧ WalkBy d edges start m kind id ∧
      entry = .obj [("relation", kind), ("depth", .int m), ("node_type", firstType nodes id)] := by
  obtain ⟨id', m, hid, hfound, hm, -⟩ := h.told (.str id) entry (mem_map.2 ⟨_, hmem, rfl⟩)
  cases hid
  obtain ⟨passed, a, kind, type, trail, -, hleads, htype, rfl, rfl⟩ := hfound
  cases htype.symm.trans (hg.nodeType_eq hnodes id)
  exact ⟨passed.length + 1, kind, by omega, hm, ⟨passed.length, a, rfl, trail.walk, hleads⟩, rfl⟩

lemma Gathered.nodup_members (h : Gathered g d edges start depth [] (keyed members) met) :
    members.keys.Nodup := by
  have hdistinct := h.distinct
  exact List.Nodup.of_map Key.str (by simpa [Table.keys, Function.comp_def] using hdistinct)

lemma Gathered.entered (h : Gathered g d edges start depth []
      (keyed members) met) (hdepth : (edges.length : Int) < depth)
    (hmem : id ∈ members.keys) : .str id ∈ met := by
  obtain ⟨entry, hentry⟩ := exists_of_mem_keys hmem
  obtain ⟨id', m, hid, hfound, -, hentered⟩ := h.told (.str id) entry
    (mem_map.2 ⟨_, mem_of_get? hentry, rfl⟩)
  obtain ⟨passed, trail, rfl⟩ := hfound.exists_trail
  have hlength := length_le_of_trail trail
  exact hentered (by omega)

lemma Gathered.mem_keys_of_walk (h : Gathered g d edges start depth []
      (keyed members) met) (hstart : 0 < depth → .str start ∈ met)
    (hdepth : (edges.length : Int) < depth) {n : Nat}
    (walk : Walk (Leads d edges) start (n + 1) id) : id ∈ members.keys := by
  induction n generalizing id with
  | zero =>
    obtain _ | ⟨walk, step⟩ := walk
    cases walk
    exact h.mem_keys_of_leads (hstart (by omega)) step
  | succ n ih =>
    obtain _ | @⟨_, a, _, walk, step⟩ := walk
    exact h.mem_keys_of_leads (h.entered hdepth (ih walk)) step

/-- A trace runs out of its levels, or ends and has gathered all that belongs to it. -/
lemma tooDeep_or_exists_trace (hg : TextIds g edges) (start : String) (d : Direction)
    (depth : Int) : trace g start d.word (.int depth) = .error (.tooDeep "") ∨
      ∃ members met, trace g start d.word (.int depth) = .ok (.obj members) ∧
        Gathered g d edges start depth [] (keyed members) met ∧ (0 < depth → .str start ∈ met) := by
  have hroom (passed : List String) (b : String) (trail : Trail (Leads d edges) start passed b)
      (_ : (passed.length : Int) ≤ depth) : passed.length < traceBound (.ok edges) := by
    have hlength := length_le_of_trail trail
    rw [traceBound]
    omega
  obtain ⟨r, met, hrun, hr, hentered⟩ := traceFrom_gathers hg hroom
    (traceBound (.ok edges)) [] .here (by simp) (by simp) (by simp [traceBound])
  rcases endsEarly_traceFrom g d.word (.int depth) (.ok edges)
    (Nat.min_le_right traceLimit (traceBound (.ok edges))) 0 start [] with hearly | hsame
  · left
    rw [trace_eq, hg.listed, hearly]
    rfl
  · right
    obtain ⟨members, htrace, rfl⟩ := trace_of_gathered hg (hsame.trans hrun) hr
    exact ⟨members, met, htrace, hr, hentered⟩

/-- A trace tells the truth at every depth, and tells of all that can be reached if its depth is
greater than the number of edges. It ends unless both depth and edges are beyond the limit of its
levels. -/
theorem trace_sound_and_complete (hg : TextIds g edges) (hnodes : nodesOf g = .ok nodes)
    (start : String) (d : Direction) (depth : Int) :
    trace g (.str start) d.word (.int depth) = .error (.tooDeep "") ∧
        (traceLimit : Int) ≤ depth ∧ traceLimit ≤ edges.length ∨
      ∃ members, trace g (.str start) d.word (.int depth) = .ok (.obj members) ∧
        (keys members).Nodup ∧
        (∀ id entry, (id, entry) ∈ members → ∃ (m : Nat) (kind : Json), 1 ≤ m ∧ (m : Int) ≤ depth ∧
          WalkBy d edges start m kind id ∧ entry =
            .obj [("relation", kind), ("depth", .int m), ("node_type", firstType nodes id)]) ∧
        ((edges.length : Int) < depth → ∀ id, id ∈ keys members ↔
          ∃ m, 1 ≤ m ∧ Walk (Leads d edges) start m id) := by
  rcases tooDeep_or_exists_trace hg start d depth with hdeep | ⟨members, met, hrun,
    hgathered, hstart⟩
  · left
    refine ⟨hdeep, ?_⟩
    by_contra hbeyond
    have hlimit : depth < traceLimit ∨ edges.length < traceLimit := by omega
    obtain ⟨members, -, hrun, -⟩ := exists_trace hg hlimit start d
    cases hdeep.symm.trans hrun
  · right
    refine ⟨members, hrun, hgathered.nodup_members,
      fun id entry hmem ↦ hgathered.exists_walkBy hg hnodes hmem,
      fun hdepth id ↦ ⟨fun hmem ↦ ?_, ?_⟩⟩
    · obtain ⟨entry, hentry⟩ := exists_of_mem_keys hmem
      obtain ⟨-, kind, -, -, ⟨m, a, -, walk, hleads⟩, -⟩ :=
        hgathered.exists_walkBy hg hnodes (mem_of_get? hentry)
      exact ⟨m + 1, by omega, walk.next ⟨kind, hleads⟩⟩
    · rintro ⟨m, hm, walk⟩
      obtain ⟨n, rfl⟩ := Nat.exists_eq_add_one.2 hm
      exact hgathered.mem_keys_of_walk hstart hdepth walk

end

/-- A function that calls its caller, and one more. -/
def mutualEdges : List Json :=
  [("s", "a"), ("a", "s"), ("a", "b")].map fun e ↦ Enrichment.edgeOf "calls" e.1 e.2

def mutualNodes : List Json := [.obj [("id", .str "a"), ("node_type", .str "Function")]]

def mutualCalls : Json := .obj [("nodes", .arr mutualNodes), ("edges", .arr mutualEdges)]

lemma textIds_mutualCalls : TextIds mutualCalls mutualEdges := by
  refine ⟨rfl, fun edge hedge ↦ ?_, mutualNodes, rfl, fun n hn ↦ ?_⟩
  · simp only [mutualEdges, map_cons, map_nil, mem_cons, not_mem_nil, or_false] at hedge
    rcases hedge with rfl | rfl | rfl
    all_goals exact ⟨_, _, _, rfl⟩
  · rw [mutualNodes, mem_singleton] at hn
    subst hn
    exact ⟨"a", rfl⟩

theorem trace_sound_and_complete_mutualCalls :
    TextIds mutualCalls mutualEdges ∧ nodesOf mutualCalls = .ok mutualNodes ∧ ∃ members,
      trace mutualCalls (.str "s") Direction.outgoing.word (.int 4) = .ok (.obj members) ∧
      (∀ id entry, (id, entry) ∈ members → ∃ (m : Nat) (kind : Json), 1 ≤ m ∧ (m : Int) ≤ 4 ∧
        WalkBy .outgoing mutualEdges "s" m kind id ∧ entry = .obj [("relation", kind),
          ("depth", .int m), ("node_type", firstType mutualNodes id)]) ∧
      keys members = ["a", "s", "b"] ∧
      ∀ id, id ∈ keys members ↔ ∃ m, 1 ≤ m ∧ Walk (Leads .outgoing mutualEdges) "s" m id := by
  refine ⟨textIds_mutualCalls, rfl, ?_⟩
  rcases trace_sound_and_complete textIds_mutualCalls rfl "s" .outgoing 4 with
    ⟨-, hdepth, -⟩ | ⟨members, hrun, -, hsound, hcomplete⟩
  · exact absurd hdepth (by decide)
  · refine ⟨members, hrun, hsound, ?_, hcomplete (by decide)⟩
    have htold : (trace mutualCalls (.str "s") Direction.outgoing.word (.int 4)).map
        (fun told ↦ Table.keys told.members) = .ok ["a", "s", "b"] := rfl
    rw [hrun] at htold
    exact Except.ok.inj htold

end CodeAtlas.Graph
