import CodeAtlas.Proofs.EarnedRoles

/-!
# What is taken over and what is looked at anew

A node is taken over from an older graph if the report says that it is unchanged and the older graph
has it. The nodes of the graph with roles are those that were taken over, as they were, and all
others with the roles that they get now.
-/

namespace CodeAtlas.Graph.Enrichment

open Fallible List Table

variable {e raw : Json} {t t' : Topology} {k : Key} {met : Table Key Json}
variable {before report : Json} {nodes : Table Key Json} {p : Plan} {taken : Key → Option Json}

/-- Whether a report says that a node is unchanged. -/
def saysUnchanged (report : Json) (k : Key) : Bool :=
  match reported report k with
  | .ok status => status.same (.str "UNCHANGED")
  | .error _ => false

/-- The older node that is taken over under a key, if one is. -/
def takenOver (old : Table Key Json) (report : Json) (k : Key) : Option Json :=
  if saysUnchanged report k then old.get? k else none

/-- A plan for the given nodes that takes over the given older ones. -/
structure Planned (nodes : Table Key Json) (taken : Key → Option Json) (p : Plan) : Prop where
  preserved : p.preserved = nodes.filterMap fun e ↦ (taken e.1).map fun n ↦ (e.1, n)
  fresh : p.fresh = nodes.filter fun e ↦ (taken e.1).isNone

lemma Planned.concat (h : Planned met taken p) (k : Key) (n : Json) :
    Planned (met ++ [(k, n)]) taken ((taken k).elim { p with fresh := p.fresh ++ [(k, n)] }
      fun kept ↦ { p with preserved := p.preserved ++ [(k, kept)] }) := by
  cases hk : taken k <;> exact ⟨by simp [hk, h.preserved], by simp [hk, h.fresh]⟩

lemma planned_of_full
    (hraw : Tabled raw nodes) (hfull : isFull before report = true)
    (h : plan raw before report = .ok p) : Planned nodes (fun _ ↦ none) p := by
  rw [plan, if_pos hfull] at h
  simp only [bind_eq_ok, pure_eq_ok] at h
  obtain ⟨values, hvalues, byId, hbyId, rfl⟩ := h
  obtain rfl : byId = nodes :=
    Except.ok.inj ((bind_eq_ok.2 ⟨values, hvalues, hbyId⟩).symm.trans hraw.nodesById)
  exact ⟨by simp, by simp⟩

lemma planned_of_incremental {old : Table Key Json}
    (hraw : Tabled raw nodes) (hbefore : (Diff.requiredNodes before >>= Diff.nodesById) = .ok old)
    (hfull : isFull before report = false) (h : plan raw before report = .ok p) :
    Planned nodes (takenOver old report) p := by
  rw [plan, if_neg (by rw [hfull]; exact Bool.false_ne_true)] at h
  simp only [bind_eq_ok] at h
  obtain ⟨oldValues, holdValues, oldById, holdById, values, hvalues, byId, hbyId,
    statuses, -, hrun⟩ := h
  obtain rfl : oldById = old :=
    Except.ok.inj ((bind_eq_ok.2 ⟨oldValues, holdValues, holdById⟩).symm.trans hbefore)
  obtain rfl : byId = nodes :=
    Except.ok.inj ((bind_eq_ok.2 ⟨values, hvalues, hbyId⟩).symm.trans hraw.nodesById)
  refine foldlM_invariant (fun met p ↦ Planned met (takenOver oldById report) p) ?_ ⟨rfl, rfl⟩ hrun
  rintro met p ⟨k, n⟩ p' hmet hk
  obtain ⟨status, hstatus, hk⟩ := bind_eq_ok.1 hk
  have hnext := hmet.concat k n
  rw [takenOver, saysUnchanged, hstatus] at hnext
  cases hold : oldById.get? k with
  | none =>
    rw [hold, ite_self] at hnext
    rw [hold, pure_eq_ok] at hk
    exact hk ▸ hnext
  | some kept =>
    rw [hold] at hk hnext
    change (if status.same "UNCHANGED" = true then _ else _) = _ at hk
    split at hk
    next hsame =>
      rw [if_pos hsame] at hnext
      exact pure_eq_ok.1 hk ▸ hnext
    next hsame =>
      rw [if_neg hsame] at hnext
      exact pure_eq_ok.1 hk ▸ hnext

/-- The nodes of an older graph by id; there are none if it cannot be read. -/
def nodesBefore (before : Json) : Table Key Json :=
  (Diff.requiredNodes before >>= Diff.nodesById).toOption.getD []

/-- The older node that is taken over under a key: none if all nodes are looked at. -/
def takenFrom (before report : Json) (k : Key) : Option Json :=
  if isFull before report = true then none else takenOver (nodesBefore before) report k

/-- Every plan takes over what the older graph has and the report calls unchanged. -/
lemma planned_of_plan (hraw : Tabled raw nodes) (h : plan raw before report = .ok p) :
    Planned nodes (takenFrom before report) p := by
  by_cases hfull : isFull before report = true
  · have htaken : takenFrom before report = fun _ ↦ none := by
      funext k
      rw [takenFrom, if_pos hfull]
    rw [htaken]
    exact planned_of_full hraw hfull h
  · have hread : (Diff.requiredNodes before >>= Diff.nodesById) = .ok (nodesBefore before) := by
      have hplan := h
      rw [plan, if_neg hfull] at hplan
      obtain ⟨values, hvalues, hplan⟩ := bind_eq_ok.1 hplan
      obtain ⟨old, hold, -⟩ := bind_eq_ok.1 hplan
      have hboth := bind_eq_ok.2 ⟨values, hvalues, hold⟩
      rw [nodesBefore, hboth]
      rfl
    have htaken : takenFrom before report = takenOver (nodesBefore before) report := by
      funext k
      rw [takenFrom, if_neg hfull]
    rw [htaken]
    exact planned_of_incremental hraw hread (by simpa using hfull) h

namespace Planned

variable {p : Plan}

lemma get? (h : Planned nodes taken p) (k : Key) :
    Table.get? (p.preserved ++ p.fresh) k = (nodes.get? k).map fun n ↦ (taken k).getD n := by
  rw [get?_append, h.preserved, h.fresh, get?_filterMap, get?_filter fun k ↦ (taken k).isNone]
  cases nodes.get? k with
  | none => simp
  | some n =>
    cases taken k <;> simp

lemma keys_preserved (h : Planned nodes taken p) :
    p.preserved.keys = nodes.keys.filter fun k ↦ (taken k).isSome := by
  rw [h.preserved, keys_filterMap]

lemma keys_fresh (h : Planned nodes taken p) :
    p.fresh.keys = nodes.keys.filter fun k ↦ (taken k).isNone := by
  rw [h.fresh, Table.keys, Table.keys, filter_map]
  rfl

lemma nodup_keys (h : Planned nodes taken p) (hnodes : nodes.keys.Nodup) :
    (p.preserved.keys ++ p.fresh.keys).Nodup := by
  rw [h.keys_preserved, h.keys_fresh, nodup_append]
  refine ⟨hnodes.filter _, hnodes.filter _, ?_⟩
  rintro k hk k' hk' rfl
  have hsome := (mem_filter.1 hk).2
  have hnone := (mem_filter.1 hk').2
  rw [Option.isNone_iff_eq_none.1 hnone] at hsome
  exact absurd hsome Bool.false_ne_true

/-- What holds of all nodes and of all that are taken over holds of the nodes of a plan. -/
lemma forall_mem (h : Planned nodes taken p) {P : Key → Json → Prop}
    (hnodes : ∀ k n, (k, n) ∈ nodes → P k n) (htaken : ∀ k n, taken k = some n → P k n) {n : Json}
    (hmem : (k, n) ∈ p.preserved ++ p.fresh) : P k n := by
  rcases mem_append.1 hmem with hmem | hmem
  · rw [h.preserved] at hmem
    obtain ⟨e, -, he⟩ := mem_filterMap.1 hmem
    obtain ⟨kept, hkept, heq⟩ := Option.map_eq_some_iff.1 he
    cases heq
    exact htaken _ _ hkept
  · rw [h.fresh] at hmem
    exact hnodes k n (mem_of_mem_filter hmem)

lemma labelled (h : Planned nodes taken p) (hnodes : Labelled nodes)
    (htaken : ∀ k n, taken k = some n → ∃ id, k = .str id ∧ n.member? "id" = some (.str id)) :
    Labelled (p.preserved ++ p.fresh) := fun _ _ ↦ h.forall_mem hnodes htaken

lemma identified (h : Planned nodes taken p) (hnodes : Identified nodes)
    (htaken : ∀ k n, taken k = some n → ∃ id, n.member? "id" = some id ∧ id.key? = some k) :
    Identified (p.preserved ++ p.fresh) := fun _ _ ↦ h.forall_mem hnodes htaken

end Planned

/-- An edge that can be added is added the same way to whatever has been there: not at all, or under
both its ends. -/
lemma addEdge_spec (h : t.addEdge e = .ok t') : (∀ u : Topology, u.addEdge e = .ok u) ∨
      ∃ type source target s d, source.key? = some s ∧ target.key? = some d ∧
        ∀ u : Topology, u.addEdge e = .ok { u with
          leaving := u.leaving.push s (type, target),
          arriving := u.arriving.push d (type, source) } := by
  simp only [Topology.addEdge, bind_eq_ok] at h
  obtain ⟨from', hfrom, source, hsource, to', hto, target, htarget, edge, hedge, type, htype,
    h⟩ := h
  simp only [Topology.addEdge, hfrom, hsource, hto, htarget, hedge, htype, bind, Except.bind]
  split at h
  next hends =>
    simp only [bind_eq_ok, pure_eq_ok, Json.key_eq_ok] at h
    obtain ⟨s, hs, d, hd, -⟩ := h
    refine .inr ⟨type, source, target, s, d, hs, hd, fun u ↦ ?_⟩
    simp only [hends, Json.key_eq_ok.2 hs, Json.key_eq_ok.2 hd]
    rfl
  next hends =>
    refine .inl fun u ↦ ?_
    simp only [hends]
    rfl

lemma keyed_push {table : Table Key (List (Json × Json))}
    (h : ∀ k ends, table.get? k = some ends → Topology.Keyed ends) {kind other : Json} {key : Key}
    (hother : other.key? = some key) (k' : Key) (ends : List (Json × Json))
    (hends : (table.push k (kind, other)).get? k' = some ends) : Topology.Keyed ends := by
  rw [get?_push] at hends
  split at hends
  · cases hends
    intro e he
    rcases mem_append.1 he with he | he
    · cases hold : table.get? k with
      | none => simp [hold] at he
      | some old => exact h k old hold e (by simpa [hold] using he)
    · rw [mem_singleton] at he
      exact ⟨key, he ▸ hother⟩
  · exact h k' ends hends

lemma wellFormed_addEdge (ht : t.WellFormed) (h : t.addEdge e = .ok t') : t'.WellFormed := by
  obtain hsame | ⟨type, source, target, s, d, hs, hd, hadd⟩ := addEdge_spec h
  · cases h.symm.trans (hsame t)
    exact ht
  · cases h.symm.trans (hadd t)
    exact ⟨ht.nodes, keyed_push ht.leaving hd, keyed_push ht.arriving hs⟩

lemma addEdge_withNodes (h : t.addEdge e = .ok t') (nodes : Table Key Json) :
    (t.withNodes nodes).addEdge e = .ok (t'.withNodes nodes) ∧ t'.nodes = t.nodes := by
  obtain hsame | ⟨type, source, target, s, d, -, -, hadd⟩ := addEdge_spec h
  · cases h.symm.trans (hsame t)
    exact ⟨hsame _, rfl⟩
  · cases h.symm.trans (hadd t)
    exact ⟨hadd _, rfl⟩

lemma topologyOf_nodes (h : topologyOf p raw = .ok t) : t.nodes = p.preserved ++ p.fresh := by
  simp only [topologyOf, bind_eq_ok] at h
  obtain ⟨-, -, edges, -, hrun⟩ := h
  refine foldlM_invariant (fun _ (t : Topology) ↦ t.nodes = p.preserved ++ p.fresh) ?_ rfl hrun
  intro met t e t' ht he
  rw [(addEdge_withNodes he []).2, ht]

lemma topologyOf_withNodes (h : topologyOf p raw = .ok t) (p' : Plan) :
    topologyOf p' raw = .ok (t.withNodes (p'.preserved ++ p'.fresh)) := by
  simp only [topologyOf, bind_eq_ok] at h ⊢
  obtain ⟨listed, hlisted, edges, hedges, hrun⟩ := h
  refine ⟨listed, hlisted, edges, hedges, ?_⟩
  obtain ⟨t', ht', rfl⟩ := foldlM_follows (fun t u ↦ u = t.withNodes (p'.preserved ++ p'.fresh))
    (fun t u e t' hu he ↦ ⟨_, hu ▸ (addEdge_withNodes he _).1, rfl⟩) rfl hrun
  exact ht'

lemma wellFormed_topologyOf (h : topologyOf p raw = .ok t)
    (hp : Labelled (p.preserved ++ p.fresh)) : t.WellFormed := by
  simp only [topologyOf, bind_eq_ok] at h
  obtain ⟨-, -, edges, -, hrun⟩ := h
  refine foldlM_invariant (fun _ (t : Topology) ↦ t.WellFormed) ?_ ?_ hrun
  · intro met t e t' ht he
    exact wellFormed_addEdge ht he
  · refine ⟨fun k n hn ↦ ?_, by simp, by simp⟩
    exact hp.hasTextId hn

/-- A node is as it was taken over, or else a relation holds between it and what it comes from. -/
structure TakenOr (taken : Key → Option Json) (P : Json → Json → Prop) (k : Key) (n m : Json) :
    Prop where
  kept : ∀ old, taken k = some old → m = old
  fresh : taken k = none → P n m

/-- What a graph with roles is made of: the nodes that were taken over, as they were, and the others
with the roles that they get. -/
lemma complete_spec {g : Json} {frameworks : List Reading}
    (hraw : Tabled raw nodes) (hp : Planned nodes taken p)
    (htaken : ∀ k n, taken k = some n → ∃ id, n.member? "id" = some id ∧ id.key? = some k)
    (h : complete raw report p frameworks = .ok g) : ∃ t enriched count, topologyOf p raw = .ok t ∧
      frameworks.foldlM (applyFramework t) (p.fresh, 0) = .ok (enriched, count) ∧
      document raw report p enriched count = .ok g ∧ Tabled g (p.preserved ++ enriched) ∧
      Aligned (TakenOr taken fun n m ↦ giveRoles t frameworks n = .ok m) nodes
        (p.preserved ++ enriched) := by
  simp only [complete, bind_eq_ok] at h
  obtain ⟨t, ht, ⟨enriched, count⟩, hrun, h⟩ := h
  have hentries := entrywise_giveRoles hrun
  have hnodes : Diff.requiredNodes g = .ok (Table.values (p.preserved ++ enriched)) := by
    simp only [document, bind_eq_ok, pure_eq_ok] at h
    obtain ⟨edges, -, tickets, -, rfl⟩ := h
    rw [values_append]
    rfl
  have hkeys : Table.keys (p.preserved ++ enriched) = p.preserved.keys ++ p.fresh.keys := by
    rw [Table.keys_append, hentries.keys_eq]
  refine ⟨t, enriched, count, ht, hrun, h, ⟨hnodes, ?_, fun k m hm ↦ ?_⟩, fun k hk ↦ ?_,
    fun k n hn ↦ ?_⟩
  · rw [hkeys]
    exact hp.nodup_keys hraw.distinct
  · have hidentified := hp.identified hraw.identified htaken
    rcases mem_append.1 hm with hm | hm
    · exact hidentified k m (mem_append_left _ hm)
    · obtain ⟨n, hn, hroles⟩ := hentries.exists_of_mem hm
      rw [member?_of_structureOf_eq (structureOf_giveRoles hroles) (by decide)]
      exact hidentified k n (mem_append_right _ hn)
  · rw [get?_eq_none_iff, hkeys, hp.keys_preserved, hp.keys_fresh]
    rw [get?_eq_none_iff] at hk
    simp [hk]
  · have hpreserved : p.preserved.get? k = taken k := by
      rw [hp.preserved, get?_filterMap, hn, Option.bind_some]
    rw [get?_append, hpreserved]
    cases hk : taken k with
    | some kept => exact ⟨kept, rfl, by simp [hk], by simp [hk]⟩
    | none =>
      have hfresh : p.fresh.get? k = some n := by
        rw [hp.fresh, get?_filter fun k ↦ (taken k).isNone, hk, hn]
        rfl
      obtain ⟨m, hm, hget⟩ := hentries.get? hfresh
      exact ⟨m, by rw [hget]; rfl, by simp [hk], fun _ ↦ hm⟩

lemma enriched_of_full {g : Json} {frameworks : List Reading} (hraw : Tabled raw nodes)
    (hfull : isFull before report = true) (h : enriched raw before report frameworks = .ok g) :
    ∃ t done, topologyOf { fresh := nodes } raw = .ok t ∧ Tabled g done ∧
      Aligned (fun _ n m ↦ giveRoles t frameworks n = .ok m) nodes done := by
  obtain ⟨p, hp, h⟩ := bind_eq_ok.1 h
  have hplanned := planned_of_full hraw hfull hp
  obtain ⟨preserved, fresh⟩ := p
  obtain rfl : preserved = [] := by simpa using hplanned.preserved
  obtain rfl : fresh = nodes := by simpa using hplanned.fresh
  obtain ⟨t, _, _, ht, -, -, hdone, haligned⟩ := complete_spec hraw hplanned (by simp) h
  exact ⟨t, _, ht, hdone, haligned.imp fun _ _ _ h ↦ h.fresh rfl⟩

lemma identified_takenFrom {n : Json}
    (h : takenFrom before report k = some n) : ∃ id, n.member? "id" = some id ∧
    id.key? = some k := by
  rw [takenFrom] at h
  split at h
  · cases h
  · rw [takenOver] at h
    split at h
    · have hmem := Table.mem_of_get? h
      rw [nodesBefore] at hmem
      cases hread : Diff.requiredNodes before >>= Diff.nodesById with
      | error e =>
        rw [hread] at hmem
        cases hmem
      | ok old =>
        rw [hread] at hmem
        obtain ⟨values, -, hold⟩ := bind_eq_ok.1 hread
        exact identified_nodesById hold k n hmem
    · cases h

end CodeAtlas.Graph.Enrichment
