import CodeAtlas.Proofs.IncrementalRoles
import CodeAtlas.Proofs.Walks

/-!
# What a trace tells

A trace follows the edges of a graph in depth and enters every node once, on the trail by which it
comes to it first, be that the shortest or not. A node that it meets again is described anew, but
not entered again. So every node that it tells of lies at the end of a trail of the depth that is
told. That this depth is the least one, and that no node within the depth asked for is left out,
holds where all trails to a node are of the same length.
-/

namespace CodeAtlas.Graph

open Fallible List Table Json

variable {met met' : List Key} {a id : String} {passed : List String} {edge entry : Json}
  {r : Table Key Json} {e : Endpoints}
variable {edges nodes : List Json} {g : Json} {members : Table String Json} {start : String}

/-! ## The way along the edges -/

/-- Which way edges are followed. -/
inductive Direction
  | outgoing
  | incoming
deriving DecidableEq, Repr

namespace Direction

def word : Direction → Json
  | .outgoing => .str "outgoing"
  | .incoming => .str "incoming"

/-- The ends of an edge as it is followed: where it starts and where it leads. -/
def ends (d : Direction) (e : Endpoints) : Json × Json :=
  match d with
  | .outgoing => (e.source, e.target)
  | .incoming => (e.target, e.source)

lemma neighbour_word (d : Direction) (e : Endpoints) (a : String) :
    neighbour d.word e a = if (d.ends e).1 = .str a then (d.ends e).2 else .null := by
  cases d with
  | outgoing =>
    by_cases h : e.source = .str a
    · simp [neighbour, word, ends, same, h]
    · have hnot : e.source.same a = false := by rwa [← Bool.not_eq_true, same_str]
      simp [neighbour, word, ends, same, h, hnot]
  | incoming =>
    by_cases h : e.target = .str a
    · simp [neighbour, word, ends, same, h]
    · have hnot : e.target.same a = false := by rwa [← Bool.not_eq_true, same_str]
      simp [neighbour, word, ends, same, h, hnot]

end Direction

/-- An edge of a kind leads from one id to another; none leads to the empty text. -/
def LeadsBy (d : Direction) (edges : List Json) (kind : Json) (a b : String) : Prop :=
  b ≠ "" ∧ ∃ edge ∈ edges, ∃ e, endpoints edge = .ok e ∧ d.ends e = (.str a, .str b) ∧ e.kind = kind

def Leads (d : Direction) (edges : List Json) (a b : String) : Prop :=
  ∃ kind, LeadsBy d edges kind a b

/-- A graph with these edges, where all ids are texts. -/
structure TextIds (g : Json) (edges : List Json) : Prop where
  listed : edgesOf g = .ok edges
  ends : ∀ edge ∈ edges, ∃ source target kind,
    endpoints edge = .ok ⟨.str source, .str target, kind⟩
  nodes : ∃ nodes, nodesOf g = .ok nodes ∧ ∀ n ∈ nodes, HasTextId n

lemma TextIds.exists_ends (h : TextIds g edges) (d : Direction)
    (hedge : edge ∈ edges) : ∃ e a b, endpoints edge = .ok e ∧ d.ends e = (.str a, .str b) := by
  obtain ⟨source, target, kind, hends⟩ := h.ends edge hedge
  cases d with
  | outgoing => exact ⟨_, source, target, hends, rfl⟩
  | incoming => exact ⟨_, target, source, hends, rfl⟩

/-- The type of the first node that has an id. -/
def firstType (nodes : List Json) (id : String) : Json :=
  match nodes.find? fun n ↦ n.member? "id" = some (.str id) with
  | some n => (n.member? "node_type").getD .null
  | none => .str "Unknown"

lemma findNode?_eq (h : ∀ n ∈ nodes, HasTextId n) (id : String) :
    findNode? id nodes = .ok (nodes.find? fun n ↦ n.member? "id" = some (.str id)) := by
  induction nodes with
  | nil => rfl
  | cons n rest ih =>
    obtain ⟨⟨text, htext⟩, hrest⟩ := forall_mem_cons.1 h
    rw [findNode?, need_eq_ok.2 htext, find?_cons, htext]
    by_cases hsame : text = id
    · subst hsame
      simp [same, bind, Except.bind, pure, Except.pure]
    · simpa [same, bind, Except.bind, hsame] using ih hrest

lemma TextIds.nodeType_eq (h : TextIds g edges) (hnodes : nodesOf g = .ok nodes) (id : String) :
    nodeType g id = .ok (firstType nodes id) := by
  obtain ⟨nodes', hnodes', htexts⟩ := h.nodes
  cases hnodes.symm.trans hnodes'
  have hnode : node? g id = .ok _ := bind_eq_ok.2 ⟨nodes, hnodes, findNode?_eq htexts id⟩
  rw [nodeType, hnode, firstType]
  cases hfound : nodes.find? fun n ↦ n.member? "id" = some (.str id) with
  | none => rfl
  | some n =>
    obtain ⟨text, htext⟩ := htexts n (mem_of_find?_eq_some hfound)
    exact get_eq_ok.2 ⟨isObject_of_member? htext, rfl⟩

/-- A trail is no longer than the list of edges: it goes on from every node at most once. -/
lemma length_le_of_trail {d : Direction} {b : String}
    (h : Trail (Leads d edges) start passed b) : passed.length ≤ edges.length := by
  have hsubset : passed.map (fun a ↦ some (Json.str a)) ⊆
      edges.map fun edge ↦ (endpoints edge).toOption.map fun e ↦ (d.ends e).1 := by
    intro a ha
    obtain ⟨x, hx, rfl⟩ := mem_map.1 ha
    obtain ⟨y, kind, -, edge, hedge, e, he, hends, -⟩ := h.exists_leads hx
    exact mem_map.2 ⟨edge, hedge, by simp [he, hends, Except.toOption]⟩
  have hnodup : (passed.map fun a ↦ some (Json.str a)).Nodup :=
    h.nodup.map fun x y hxy ↦ str.inj (Option.some.inj hxy)
  simpa using (hnodup.subperm hsubset).length_le

/-! ## What has been gathered -/

abbrev keyed (members : Table String Json) : Table Key Json :=
  members.map fun e ↦ (Key.str e.1, e.2)

/-- The description of a node at a depth: it lies at the end of a trail with so many steps, whose
last edge is of the kind that is told. -/
def Found (g : Json) (d : Direction) (edges : List Json) (start : String) (m : Nat) (id : String)
    (entry : Json) : Prop :=
  ∃ passed a kind type, Trail (Leads d edges) start passed a ∧ a ∉ passed ∧
    LeadsBy d edges kind a id ∧ nodeType g (.str id) = .ok type ∧ m = passed.length + 1 ∧
    entry = .obj [("relation", kind), ("depth", .int m), ("node_type", type)]

lemma Found.exists_trail {d : Direction} {m : Nat} (h : Found g d edges start m id entry) :
    ∃ passed, Trail (Leads d edges) start passed id ∧ passed.length = m := by
  obtain ⟨passed, a, kind, type, trail, hnew, hleads, -, rfl, -⟩ := h
  exact ⟨a :: passed, trail.next hnew ⟨kind, hleads⟩, rfl⟩

section

variable {d : Direction} {depth : Int}

/-- What a part of a trace has gathered, which has entered some more nodes: all that the edges of
these lead to, and of what lies less deep than asked for it has entered all. -/
structure Gathered (g : Json) (d : Direction) (edges : List Json) (start : String) (depth : Int)
    (met : List Key) (r : Table Key Json) (met' : List Key) : Prop where
  grows : met ⊆ met'
  followed : ∀ a, .str a ∈ met' → .str a ∉ met → ∀ b, Leads d edges a b → .str b ∈ r.keys
  told : ∀ k entry, (k, entry) ∈ r → ∃ id m, k = .str id ∧ Found g d edges start m id entry ∧
    (m : Int) ≤ depth ∧ ((m : Int) < depth → k ∈ met')
  distinct : r.keys.Nodup

lemma Gathered.nil (met : List Key) : Gathered g d edges start depth met [] met :=
  ⟨fun _ ↦ id, fun _ h hnot ↦ absurd h hnot, by simp, nodup_nil⟩

/-- A node is described, and what is gathered from there on is added. -/
lemma Gathered.add {met'' : List Key} {further : Table Key Json}
    (h : Gathered g d edges start depth met r met')
    (hfurther : Gathered g d edges start depth met' further met'') {m : Nat}
    (hfound : Found g d edges start m id entry) (hdepth : (m : Int) ≤ depth)
    (hentered : (m : Int) < depth → .str id ∈ met'') :
    Gathered g d edges start depth met ((r.put (.str id) entry).merge further) met'' where
  grows := List.Subset.trans h.grows hfurther.grows
  followed a ha hnot b hleads := by
    rw [mem_keys_merge, mem_keys_put]
    by_cases hmet : Key.str a ∈ met'
    · exact .inl (.inr (h.followed a hmet hnot b hleads))
    · exact .inr (hfurther.followed a ha hmet b hleads)
  told k described hmem := by
    rcases mem_merge hmem with hmem | hmem
    · rcases mem_put hmem with heq | hmem
      · cases heq
        exact ⟨id, m, rfl, hfound, hdepth, hentered⟩
      · obtain ⟨id', m', hk, hfound', hdepth', hmet⟩ := h.told k described hmem
        exact ⟨id', m', hk, hfound', hdepth', fun hlt ↦ hfurther.grows (hmet hlt)⟩
    · exact hfurther.told k described hmem
  distinct := nodup_keys_merge (nodup_keys_put h.distinct _ _) _

/-- An edge leads from an id to another one that has been described. -/
def Covered (d : Direction) (a : String) (r : Table Key Json) (edge : Json) : Prop :=
  ∀ e b, endpoints edge = .ok e → d.ends e = (.str a, .str b) → b ≠ "" → .str b ∈ r.keys

/-- Once all edges of a node are covered, its own part of the trace is done. -/
lemma Gathered.close (h : Gathered g d edges start depth (.str a :: met) r met')
    (hcovered : ∀ edge ∈ edges, Covered d a r edge) :
    Gathered g d edges start depth met r met' where
  grows := List.Subset.trans (subset_cons_self _ _) h.grows
  followed x hx hnot b hleads := by
    by_cases hxa : x = a
    · subst hxa
      obtain ⟨kind, hb, edge, hedge, e, he, hends, -⟩ := hleads
      exact hcovered edge hedge e b he hends hb
    · refine h.followed x hx ?_ b hleads
      simpa [hxa] using hnot
  told := h.told
  distinct := h.distinct

/-! ## The trace of one node -/

/-- An edge that leads on from a node is followed unless its end has been described. Any other edge
adds nothing. -/
lemma traceEdge_run (hg : TextIds g edges) (hnodes : nodesOf g = .ok nodes)
    {x y : String} (he : endpoints edge = .ok e) (hends : d.ends e = (.str x, .str y)) (level : Nat)
    (further : Json → Tracing (Table Key Json)) (r : Table Key Json) (met : List Key) :
    (traceEdge g d.word level a further r edge).run met =
      if x = a ∧ y ≠ "" ∧ .str y ∉ r.keys then
        (further y).run met >>= fun p ↦ pure ((r.put (.str y) (.obj [("relation", e.kind),
          ("depth", .int (level + 1)), ("node_type", firstType nodes y)])).merge p.1, p.2)
      else .ok (r, met) := by
  rw [traceEdge, he]
  change StateT.run (if (neighbour d.word e a).truthy = true then _ else _) met = _
  rw [d.neighbour_word, hends]
  by_cases hx : x = a
  · subst hx
    by_cases hy : y = ""
    · subst hy
      rw [if_pos rfl, if_neg (by simp : ¬(x = x ∧ "" ≠ "" ∧ _))]
      rfl
    · have htruthy : (Json.str y).truthy = true := by simpa [truthy] using hy
      rw [if_pos rfl, if_pos htruthy]
      change StateT.run (if r.contains (.str y) = true then _ else _) met = _
      by_cases hk : .str y ∈ r.keys
      · rw [if_pos (Table.contains_iff.2 hk), if_neg fun h ↦ h.2.2 hk]
        rfl
      · rw [if_neg (mt Table.contains_iff.1 hk), if_pos ⟨rfl, hy, hk⟩, hg.nodeType_eq hnodes]
        rfl
  · rw [if_neg fun h ↦ hx (str.inj h)]
    exact (if_neg fun h ↦ hx h.1).symm

lemma Covered.mono {r' : Table Key Json} (h : Covered d a r edge) (hkeys : r.keys ⊆ r'.keys) :
    Covered d a r' edge :=
  fun e b he hends hb ↦ hkeys (h e b he hends hb)

/-- One edge more is covered, and what is gathered stays in order. -/
lemma traceEdge_gathers (hg : TextIds g edges) (trail : Trail (Leads d edges) start passed a)
    (hnew : a ∉ passed) (hdepth : (passed.length : Int) < depth)
    {further : Json → Tracing (Table Key Json)}
    (hfurther : ∀ b met, Trail (Leads d edges) start (a :: passed) b →
      (∀ x ∈ a :: passed, .str x ∈ met) → ∃ t met', (further b).run met = .ok (t, met') ∧
        Gathered g d edges start depth met t met' ∧
        (((a :: passed).length : Int) < depth → .str b ∈ met')) (hpassed :
        ∀ x ∈ passed, .str x ∈ met)
    {seen : List Json} (hedge : edge ∈ edges)
    (hr : Gathered g d edges start depth (.str a :: met) r met')
    (hseen : ∀ edge' ∈ seen, Covered d a r edge') :
    ∃ r' met'', (traceEdge g d.word passed.length a further r edge).run met' = .ok (r', met'') ∧
      Gathered g d edges start depth (.str a :: met) r' met'' ∧
      ∀ edge' ∈ seen ++ [edge], Covered d a r' edge' := by
  obtain ⟨nodes, hnodes, -⟩ := hg.nodes
  obtain ⟨e, x, y, he, hends⟩ := hg.exists_ends d hedge
  rw [traceEdge_run hg hnodes he hends]
  have hend {e' : Endpoints} {b : String} (he' : endpoints edge = .ok e')
      (hends' : d.ends e' = (.str a, .str b)) : x = a ∧ y = b := by
    cases he.symm.trans he'
    simpa [hends] using hends'
  split
  next hon =>
    obtain ⟨rfl, hy, hyNew⟩ := hon
    have hleads : LeadsBy d edges e.kind x y := ⟨hy, edge, hedge, e, he, hends, rfl⟩
    have hmet : ∀ z ∈ x :: passed, .str z ∈ met' := by
      rw [forall_mem_cons]
      exact ⟨hr.grows mem_cons_self, fun z hz ↦ hr.grows (mem_cons_of_mem _ (hpassed z hz))⟩
    obtain ⟨t, met'', hrun, ht, hentered⟩ := hfurther y met' (trail.next hnew ⟨_, hleads⟩) hmet
    have hfound : Found g d edges start (passed.length + 1) y _ :=
      ⟨passed, x, e.kind, _, trail, hnew, hleads, hg.nodeType_eq hnodes y, rfl, rfl⟩
    refine ⟨_, met'', by rw [hrun]; rfl, hr.add ht hfound (by push_cast; omega) hentered, ?_⟩
    have hkeys (entry : Json) {k : Key} (hk : k = .str y ∨ k ∈ r.keys) :
        k ∈ ((r.put (.str y) entry).merge t).keys :=
      mem_keys_merge.2 (.inl (mem_keys_put.2 hk))
    rw [forall_mem_append, forall_mem_singleton]
    refine ⟨fun edge' hedge' ↦ (hseen edge' hedge').mono fun k hk ↦ hkeys _ (.inr hk), ?_⟩
    exact fun e' b he' hends' _ ↦ hkeys _ (.inl (by rw [(hend he' hends').2]))
  next hidle =>
    refine ⟨r, met', rfl, hr, ?_⟩
    rw [forall_mem_append, forall_mem_singleton]
    refine ⟨hseen, fun e' b he' hends' hb ↦ ?_⟩
    obtain ⟨hx, rfl⟩ := hend he' hends'
    by_contra hnot
    exact hidle ⟨hx, hb, hnot⟩

/-- A node that has been entered is not entered again, nor is one at the last depth. Of any other
node, all edges are followed. -/
lemma traceFrom_run (steps level : Nat) (a : String) (met : List Key) :
    (traceFrom g d.word (.int depth) (.ok edges) (steps + 1) level a).run met =
      if .str a ∈ met ∨ depth ≤ level then .ok ([], met)
      else (edges.foldlM (traceEdge g d.word level a
        (traceFrom g d.word (.int depth) (.ok edges) steps (level + 1))) []).run
        (.str a :: met) := by
  change StateT.run (if met.contains (.str a) = true then _ else _) met = _
  by_cases hmet : Key.str a ∈ met
  · rw [if_pos (contains_iff_mem.2 hmet), if_pos (.inl hmet)]
    rfl
  · rw [if_neg (mt contains_iff_mem.1 hmet)]
    change StateT.run (if decide (depth ≤ level) = true then _ else _) met = _
    by_cases hdepth : depth ≤ level
    · rw [if_pos (by simpa using hdepth), if_pos (.inr hdepth)]
      rfl
    · rw [if_neg (by simpa using hdepth), if_neg (not_or.2 ⟨hmet, hdepth⟩)]
      rfl

/-- A part of a trace comes to its end if there are steps enough for all trails that it may take,
and has then gathered what belongs to it. -/
lemma traceFrom_gathers (hg : TextIds g edges) {limit : Nat}
    (hlimit : ∀ passed b, Trail (Leads d edges) start passed b → (passed.length : Int) ≤ depth →
      passed.length < limit) (steps : Nat) (met : List Key) (trail :
      Trail (Leads d edges) start passed a)
    (hpassed : ∀ x ∈ passed, .str x ∈ met) (hsteps : passed.length + steps = limit)
    (hpos : 1 ≤ steps) :
    ∃ r met', (traceFrom g d.word (.int depth) (.ok edges) steps passed.length a).run met =
        .ok (r, met') ∧ Gathered g d edges start depth met r met' ∧
      ((passed.length : Int) < depth → .str a ∈ met') := by
  -- The induction is on the steps; each part that is begun lies one trail further.
  induction steps generalizing passed a met with
  | zero => omega
  | succ steps ih =>
    rw [traceFrom_run]
    split
    next hstop => exact ⟨[], met, rfl, .nil met, fun h ↦ hstop.resolve_right (not_le.2 h)⟩
    next hon =>
      obtain ⟨hmet, hdepth⟩ := not_or.1 hon
      rw [not_le] at hdepth
      have hfurther (b : String) (met' : List Key)
        (trail' : Trail (Leads d edges) start (a :: passed) b)
          (hpassed' : ∀ x ∈ a :: passed, .str x ∈ met') :=
        have hroom := hlimit _ _ trail' (by rw [length_cons]; omega)
        ih met' trail' hpassed' (by rw [length_cons]; omega) (by rw [length_cons] at hroom; omega)
      obtain ⟨r, met', hrun, hr, hcovered⟩ := foldlM_run_succeeds
        (fun seen r met' ↦ Gathered g d edges start depth (.str a :: met) r met' ∧
          ∀ edge ∈ seen, Covered d a r edge)
        (fun seen edge hedge r met' hr ↦ traceEdge_gathers hg trail
          (fun ha ↦ hmet (hpassed a ha)) hdepth
          hfurther hpassed hedge hr.1 hr.2) (b := []) (s := .str a :: met) ⟨.nil _, by simp⟩
      exact ⟨r, met', hrun, hr.close hcovered, fun _ ↦ hr.grows mem_cons_self⟩

end

/-! ## The whole trace -/

lemma TextIds.exists_endIds (h : TextIds g edges) (d : Direction) :
    ∃ ids, endIds d.word edges = .ok ids ∧ (∀ v ∈ ids, ∃ id, v = .str id) ∧
      ∀ a b, Leads d edges a b → .str b ∈ ids := by
  have hend {edge : Json} {e : Endpoints} (he : endpoints edge = .ok e) :
      (do let e ← endpoints edge
          return if d.word.same "outgoing" then e.target else e.source : Except Fault Json) =
        .ok (d.ends e).2 := by
    rw [he]
    cases d <;> rfl
  obtain ⟨ids, hids⟩ := exists_mapM_of_forall fun edge hedge ↦ by
    obtain ⟨e, a, b, he, -⟩ := h.exists_ends d hedge
    exact ⟨_, hend he⟩
  refine ⟨ids, hids, fun v hv ↦ ?_, ?_⟩
  · obtain ⟨edge, hedge, hv⟩ := (mem_mapM hids).1 hv
    obtain ⟨e, a, b, he, hends⟩ := h.exists_ends d hedge
    rw [hend he, hends] at hv
    exact ⟨b, (Except.ok.inj hv).symm⟩
  · rintro a b ⟨kind, -, edge, hedge, e, he, hends, -⟩
    exact (mem_mapM hids).2 ⟨edge, hedge, by rw [hend he, hends]⟩

lemma exists_members {names : Table Key String} {t : Table Key Json}
    (h : ∀ k ∈ t.keys, ∃ id, k = .str id ∧ names.get? k = some id) :
    ∃ members, ofKeys names t = .obj members ∧ t = keyed members := by
  refine ⟨_, rfl, ?_⟩
  induction t with
  | nil => rfl
  | cons e rest ih =>
    obtain ⟨k, entry⟩ := e
    obtain ⟨id, rfl, hname⟩ := h k mem_cons_self
    have hrest := ih fun k hk ↦ h k (mem_cons_of_mem _ hk)
    simp only [map_cons, ← hrest, hname, Option.getD_some]

lemma trace_eq (g start direction depth : Json) : trace g start direction depth =
      (do let p ← (traceFrom g direction depth (edgesOf g)
            (min traceLimit (traceBound (edgesOf g))) 0 start).run []
          if p.1.isEmpty then return .obj []
          else return .ofKeys (memberNames (← endIds direction (← edgesOf g))) p.1) := rfl

section

variable {depth : Int}

/-- What the parts of a trace have gathered is its answer, written with the ids for names. -/
lemma trace_of_gathered (hg : TextIds g edges) {d : Direction}
    (hrun : (traceFrom g d.word (.int depth) (.ok edges) (min traceLimit (traceBound (.ok edges))) 0
      start).run [] = .ok (r, met)) (hr : Gathered g d edges start depth [] r met) :
    ∃ members, trace g start d.word (.int depth) = .ok (.obj members) ∧ r = keyed members := by
  obtain ⟨ids, hids, htexts, hmem⟩ := hg.exists_endIds d
  have hkeys : ∀ k ∈ r.keys, ∃ id, k = .str id ∧ (memberNames ids).get? k = some id := by
    intro k hk
    obtain ⟨entry, hentry⟩ := exists_of_mem_keys hk
    obtain ⟨id, m, rfl, hfound, -⟩ := hr.told k entry (mem_of_get? hentry)
    obtain ⟨passed, a, kind, type, -, -, hleads, -⟩ := hfound
    exact ⟨id, rfl, Diff.get?_memberNames htexts (hmem a id ⟨kind, hleads⟩)⟩
  obtain ⟨members, hmembers, rfl⟩ := exists_members hkeys
  refine ⟨members, ?_, rfl⟩
  rw [trace_eq, hg.listed, bind_eq_ok]
  refine ⟨_, hrun, ?_⟩
  split
  next hempty =>
    rw [List.isEmpty_iff, List.map_eq_nil_iff] at hempty
    rw [hempty]
    rfl
  next =>
    rw [← hmembers]
    exact bind_eq_ok.2 ⟨_, rfl, bind_eq_ok.2 ⟨ids, hids, rfl⟩⟩

/-- A trace comes to its end unless both the depth and the edges are beyond the limit. -/
lemma exists_trace (hg : TextIds g edges)
    (hlimit : depth < traceLimit ∨ edges.length < traceLimit) (start : String) (d : Direction) :
    ∃ members met, trace g start d.word (.int depth) = .ok (.obj members) ∧
      Gathered g d edges start depth [] (keyed members) met ∧ (0 < depth → .str start ∈ met) := by
  have hroom (passed : List String) (b : String) (trail : Trail (Leads d edges) start passed b)
      (hle : (passed.length : Int) ≤ depth) :
      passed.length < min traceLimit (traceBound (.ok edges)) := by
    have hlength := length_le_of_trail trail
    rw [traceBound, Nat.lt_min]
    constructor
    · rcases hlimit with hlimit | hlimit <;> omega
    · omega
  obtain ⟨r, met, hrun, hr, hentered⟩ := traceFrom_gathers hg hroom
    (min traceLimit (traceBound (.ok edges))) [] .here (by simp) (by simp)
    (by simp [traceLimit, traceBound])
  obtain ⟨members, htrace, rfl⟩ := trace_of_gathered hg hrun hr
  exact ⟨members, met, htrace, hr, hentered⟩

lemma Gathered.mem_keys_of_leads {d : Direction}
    (h : Gathered g d edges start depth [] (keyed members) met)
    {b : String} (hentered : .str a ∈ met) (hleads : Leads d edges a b) : b ∈ members.keys := by
  have hmem := h.followed a hentered (by simp) b hleads
  simpa [Table.keys, Function.comp_def] using hmem

/-- In a graded part of a graph, every node at the end of a trail within the depth is told. -/
lemma Gathered.mem_keys_of_trail {d : Direction}
    (h : Gathered g d edges start depth [] (keyed members) met)
    (hstart : 0 < depth → .str start ∈ met) (hgraded : Graded (Leads d edges) start depth)
    (trail : Trail (Leads d edges) start passed id) (hne : passed ≠ [])
    (hle : (passed.length : Int) ≤ depth) : id ∈ members.keys := by
  induction trail with
  | here => exact absurd rfl hne
  | @next passed a b trail new step ih =>
    rw [length_cons] at hle
    refine h.mem_keys_of_leads ?_ step
    cases passed with
    | nil =>
      cases trail
      exact hstart (by omega)
    | cons x passed =>
      -- The node before is told at the depth of its own trail, which is not yet the last one.
      have hmem := ih (by simp) (by omega)
      obtain ⟨entry, hentry⟩ := exists_of_mem_keys hmem
      obtain ⟨id, m, hid, hfound, hm, hentered⟩ := h.told (.str a) entry
        (mem_map.2 ⟨_, mem_of_get? hentry, rfl⟩)
      cases hid
      obtain ⟨passed', trail', rfl⟩ := hfound.exists_trail
      have hlength : passed'.length = (x :: passed).length := by
        refine hgraded _ _ a trail' trail ?_ (by simp) hm (by omega)
        rintro rfl
        obtain ⟨_, _, _, _, -, -, -, -, hzero, -⟩ := hfound
        simp at hzero
      exact hentered (by omega)

/-- What a trace tells is true: each node that it tells of lies at the end of a trail of the depth
that is told, within the depth asked for. Where trails to the same node are of the same length, it
tells of all nodes within that depth, each at the length of a shortest walk. -/
theorem trace_tells (hg : TextIds g edges)
    (hlimit : depth < traceLimit ∨ edges.length < traceLimit) (start : String) (d : Direction) :
    ∃ members, trace g (.str start) d.word (.int depth) = .ok (.obj members) ∧
      (keys members).Nodup ∧
      (∀ id entry, (id, entry) ∈ members → ∃ passed, Trail (Leads d edges) start passed id ∧
        passed ≠ [] ∧ (passed.length : Int) ≤ depth ∧
        entry.member? "depth" = some (.int passed.length)) ∧
      (Graded (Leads d edges) start depth → ∀ id m,
        (∃ entry, (id, entry) ∈ members ∧ entry.member? "depth" = some (.int (m : Nat))) ↔
          (m : Int) ≤ depth ∧ Shortest (Leads d edges) start m id) := by
  obtain ⟨members, met, hrun, hgathered, hstart⟩ := exists_trace hg hlimit start d
  have htold (id : String) (entry : Json) (hmem : (id, entry) ∈ members) :
      ∃ passed, Trail (Leads d edges) start passed id ∧ passed ≠ [] ∧
        (passed.length : Int) ≤ depth ∧ entry.member? "depth" = some (.int passed.length) := by
    obtain ⟨id', m, hid, hfound, hm, -⟩ := hgathered.told (.str id) entry
      (List.mem_map.2 ⟨_, hmem, rfl⟩)
    obtain rfl := Key.str.inj hid
    obtain ⟨passed, a, kind, type, trail, hnew, hleads, -, rfl, rfl⟩ := hfound
    exact ⟨a :: passed, trail.next hnew ⟨kind, hleads⟩, by simp, hm, rfl⟩
  refine ⟨members, hrun, ?_, htold, fun hgraded id m ↦ ⟨?_, ?_⟩⟩
  · have hdistinct := hgathered.distinct
    rw [Table.keys, List.map_map] at hdistinct
    exact List.Nodup.of_map Key.str (by simpa [Table.keys, Function.comp_def] using hdistinct)
  · rintro ⟨entry, hmem, hdepth⟩
    obtain ⟨passed, trail, hne, hle, hpassed⟩ := htold id entry hmem
    rw [hpassed, Option.some.injEq, Json.int.injEq, Nat.cast_inj] at hdepth
    subst hdepth
    exact ⟨hle, hgraded.shortest trail hne hle⟩
  · rintro ⟨hle, hshortest⟩
    obtain ⟨passed, trail, rfl⟩ := hshortest.exists_trail
    have hne := List.length_pos_iff.1 hshortest.pos
    have hmem := hgathered.mem_keys_of_trail hstart hgraded trail hne hle
    obtain ⟨entry, hentry⟩ := exists_of_mem_keys hmem
    obtain ⟨passed', trail', hne', hle', hdepth⟩ := htold id entry (mem_of_get? hentry)
    rw [hgraded passed passed' id trail trail' hne hne' hle hle']
    exact ⟨entry, mem_of_get? hentry, hdepth⟩

end

/-- Three edges in a row, and one that goes straight to the end of the second. -/
def detourEdges : List Json :=
  [("s", "a"), ("a", "b"), ("s", "b"), ("b", "c")].map fun e ↦ Enrichment.edgeOf "calls" e.1 e.2

def detour : Json := Enrichment.graphOf [] detourEdges

lemma textIds_detour : TextIds detour detourEdges := by
  refine ⟨rfl, fun edge hedge ↦ ?_, [], rfl, by simp⟩
  simp only [detourEdges, map_cons, map_nil, mem_cons, not_mem_nil, or_false] at hedge
  rcases hedge with rfl | rfl | rfl | rfl
  all_goals exact ⟨_, _, _, rfl⟩

theorem trace_tells_detour :
    TextIds detour detourEdges ∧ ∃ members,
      trace detour (.str "s") Direction.outgoing.word (.int 1) = .ok (.obj members) ∧
      ∀ id m, (∃ entry, (id, entry) ∈ members ∧ entry.member? "depth" = some (.int (m : Nat))) ↔
        (m : Int) ≤ 1 ∧ Shortest (Leads .outgoing detourEdges) "s" m id := by
  obtain ⟨members, hrun, -, -, hexact⟩ :=
    trace_tells textIds_detour (.inl (show (1 : Int) < traceLimit by decide)) "s" .outgoing
  exact ⟨textIds_detour, members, hrun, hexact graded_one⟩

/-- The straight edge is missed: the node at its end is told at the depth of the detour, and what
lies behind it is left out. -/
theorem trace_takes_detour :
    ∃ members, trace detour (.str "s") Direction.outgoing.word (.int 2) = .ok (.obj members) ∧
      Walk (Leads .outgoing detourEdges) "s" 1 "b" ∧
      ((get? members "b").bind (·.member? "depth")) = some (.int 2) ∧
      Walk (Leads .outgoing detourEdges) "s" 2 "c" ∧ get? members "c" = none := by
  have hb : Leads .outgoing detourEdges "s" "b" :=
    ⟨.str "calls", by decide, Enrichment.edgeOf "calls" "s" "b", by decide, _, rfl, rfl, rfl⟩
  have hc : Leads .outgoing detourEdges "b" "c" :=
    ⟨.str "calls", by decide, Enrichment.edgeOf "calls" "b" "c", by decide, _, rfl, rfl, rfl⟩
  exact ⟨_, rfl, .next .here hb, rfl, .next (.next .here hb) hc, rfl⟩

end CodeAtlas.Graph
