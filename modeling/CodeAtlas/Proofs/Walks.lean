import Mathlib

/-!
# Walks and trails

A walk goes on from node to node, and a trail is a walk that goes on from every node at most once. A
shortest walk is a trail; so what is said of all trails is said of the shortest walks.
-/

namespace CodeAtlas.Graph

variable {n : Nat}
variable {α : Type} {leads : α → α → Prop} {start : α}
variable {passed : List α} {a b : α}

/-- There is a walk of a number of steps. -/
inductive Walk (leads : α → α → Prop) (start : α) : Nat → α → Prop
  | here : Walk leads start 0 start
  | next {n : Nat} {a b : α} (walk : Walk leads start n a) (step : leads a b) :
      Walk leads start (n + 1) b

/-- A walk that goes on from every node at most once, with the nodes that it has gone on from, the
last one first. It may end where it has been before. -/
inductive Trail (leads : α → α → Prop) (start : α) : List α → α → Prop
  | here : Trail leads start [] start
  | next {passed : List α} {a b : α} (trail : Trail leads start passed a) (new : a ∉ passed)
      (step : leads a b) : Trail leads start (a :: passed) b

namespace Trail

lemma walk (h : Trail leads start passed a) : Walk leads start passed.length a := by
  induction h with
  | here => exact .here
  | next _ _ step ih => exact ih.next step

lemma nodup (h : Trail leads start passed a) : passed.Nodup := by
  induction h with
  | here => exact List.nodup_nil
  | next _ new _ ih => exact List.nodup_cons.2 ⟨new, ih⟩

lemma exists_leads {x : α} (h : Trail leads start passed a) (hx : x ∈ passed) : ∃ y, leads x y := by
  induction h with
  | here => simp at hx
  | next _ _ step ih =>
    rcases List.mem_cons.1 hx with rfl | hx
    · exact ⟨_, step⟩
    · exact ih hx

/-- A trail has come to each node that it has passed by a shorter one. -/
lemma exists_shorter {x : α} (h : Trail leads start passed a) (hx : x ∈ passed) :
    ∃ before, before.length < passed.length ∧ Trail leads start before x := by
  induction h with
  | here => simp at hx
  | @next passed a b trail new step ih =>
    rcases List.mem_cons.1 hx with rfl | hx
    · exact ⟨passed, by simp, trail⟩
    · obtain ⟨before, hlength, hbefore⟩ := ih hx
      exact ⟨before, by rw [List.length_cons]; omega, hbefore⟩

end Trail

/-- A walk of at least one step goes along a trail, or it can be made shorter. -/
lemma Walk.trail_or_shorter (h : Walk leads start (n + 1) b) :
    (∃ passed, Trail leads start passed b ∧ passed.length = n + 1) ∨
      ∃ m, m < n ∧ Walk leads start (m + 1) b := by
  induction n generalizing b with
  | zero =>
    obtain _ | ⟨walk, step⟩ := h
    cases walk
    exact .inl ⟨[start], .next .here (by simp) step, rfl⟩
  | succ n ih =>
    obtain _ | @⟨_, a, _, walk, step⟩ := h
    rcases ih walk with ⟨passed, trail, hlength⟩ | ⟨m, hm, walk'⟩
    · by_cases hpassed : a ∈ passed
      · obtain ⟨before, hshorter, trail'⟩ := trail.exists_shorter hpassed
        exact .inr ⟨before.length, by omega, trail'.walk.next step⟩
      · exact .inl ⟨a :: passed, trail.next hpassed step, by simp [hlength]⟩
    · exact .inr ⟨m + 1, by omega, walk'.next step⟩

/-- The shortest walk to a node that has a step at all. -/
structure Shortest (leads : α → α → Prop) (start : α) (n : Nat) (b : α) : Prop where
  pos : 1 ≤ n
  walk : Walk leads start n b
  least : ∀ m, 1 ≤ m → Walk leads start m b → n ≤ m

lemma Shortest.exists_trail (h : Shortest leads start n b) :
    ∃ passed, Trail leads start passed b ∧ passed.length = n := by
  obtain ⟨n, rfl⟩ : ∃ k, n = k + 1 := Nat.exists_eq_add_one.2 h.pos
  rcases h.walk.trail_or_shorter with htrail | ⟨m, hm, walk⟩
  · exact htrail
  · have hleast := h.least (m + 1) (by omega) walk
    omega

lemma Walk.exists_shortest (hn : 1 ≤ n) (h : Walk leads start n b) :
    ∃ m, m ≤ n ∧ Shortest leads start m b := by
  classical
  have hexists : ∃ m, 1 ≤ m ∧ Walk leads start m b := ⟨n, hn, h⟩
  obtain ⟨hpos, hwalk⟩ := Nat.find_spec hexists
  exact ⟨Nat.find hexists, Nat.find_min' hexists ⟨hn, h⟩, hpos, hwalk,
    fun m hm walk ↦ Nat.find_min' hexists ⟨hm, walk⟩⟩

/-- Trails of some steps, up to a number, that end at the same node are of the same length. -/
def Graded (leads : α → α → Prop) (start : α) (depth : Int) : Prop :=
  ∀ passed passed' b, Trail leads start passed b → Trail leads start passed' b → passed ≠ [] →
    passed' ≠ [] → (passed.length : Int) ≤ depth → (passed'.length : Int) ≤ depth →
    passed.length = passed'.length

lemma graded_one : Graded leads start 1 := by
  intro passed passed' b _ _ hne hne' hle hle'
  have hpos := List.length_pos_iff.2 hne
  have hpos' := List.length_pos_iff.2 hne'
  omega

lemma Graded.shortest {depth : Int} (h : Graded leads start depth)
    (trail : Trail leads start passed b)
    (hne : passed ≠ []) (hle : (passed.length : Int) ≤ depth) :
    Shortest leads start passed.length b := by
  have hpos := List.length_pos_iff.2 hne
  obtain ⟨m, hm, hshortest⟩ := trail.walk.exists_shortest hpos
  obtain ⟨passed', trail', rfl⟩ := hshortest.exists_trail
  have hne' := List.length_pos_iff.1 hshortest.pos
  rw [h passed passed' b trail trail' hne hne' hle (by omega)]
  exact hshortest

/-- A walk of a number of steps from one of some starts, and no start has a shorter one. -/
structure Nearest (leads : α → α → Prop) (starts : α → Prop) (s : α) (n : Nat) (a : α) : Prop where
  start : starts s
  walk : Walk leads s n a
  least : ∀ s' m, starts s' → Walk leads s' m a → n ≤ m

/-- How far the nearest of some starts is away. -/
noncomputable def distance (leads : α → α → Prop) (starts : α → Prop) (a : α) : Nat :=
  sInf {n | ∃ s, starts s ∧ Walk leads s n a}

variable {starts : α → Prop}

lemma distance_le {s : α} (hs : starts s) (walk : Walk leads s n a) : distance leads starts a ≤ n :=
  Nat.sInf_le ⟨s, hs, walk⟩

lemma Nearest.distance_eq {s : α} (h : Nearest leads starts s n a) :
    distance leads starts a = n := by
  have hsome : {n | ∃ s, starts s ∧ Walk leads s n a}.Nonempty := ⟨n, s, h.start, h.walk⟩
  obtain ⟨s', hs', walk⟩ := Nat.sInf_mem hsome
  exact le_antisymm (distance_le h.start h.walk) (h.least s' _ hs' walk)

end CodeAtlas.Graph
