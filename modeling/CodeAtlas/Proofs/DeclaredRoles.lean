import CodeAtlas.Proofs.RolesInPlace

/-!
# Roles are declared, not computed

Rules are tried in some order, framework by framework and node by node, but what comes of it can be
read off the rules: a node has a role in the end if it had it before or if some rule of some
framework grants it to this node in the raw graph. The order of frameworks and of rules is of no
account, another framework can only add roles, and no role is given twice.
-/

namespace CodeAtlas.Graph.Enrichment

open List Fallible

variable {rule : Json} {k : Key} {roles : Nat}
variable {count : Nat} {done done' nodes now : Table Key Json} {g raw report : Json}
variable {s s' : Table Key Json × Nat} {t : Topology}

/-! ## Rules on all nodes -/

lemma applyRule_completes : (∃ s', applyRule t s rule = .ok s') ↔
      Readable rule ∧ ∀ e ∈ s.1, ∃ m, applyRuleTo t e.2 rule = .ok m := by
  constructor
  · rintro ⟨s', h⟩
    have hentries := entrywise_applyRule h
    simp only [applyRule, bind_eq_ok, Json.need_eq_ok] at h
    obtain ⟨role, hrole, kind, hkind, -⟩ := h
    refine ⟨⟨role, kind, hrole, hkind⟩, fun e he ↦ ?_⟩
    obtain ⟨e', -, -, hm⟩ := exists_right_of_mem hentries he
    exact ⟨e'.2, hm⟩
  · rintro ⟨⟨role, kind, hrole, hkind⟩, hall⟩
    simp only [applyRule_eq, bind_eq_ok, Json.need_eq_ok, Json.getD_eq_ok]
    suffices hrun : ∃ s', s.1.foldlM (applyNext t role kind (detectionOf rule))
        ([], s.2) = .ok s' by
      obtain ⟨s', hs'⟩ := hrun
      exact ⟨s', role, hrole, kind, hkind, _, ⟨Json.isObject_of_member? hrole, rfl⟩, hs'⟩
    refine foldlM_succeeds (fun s e he ↦ ?_) _
    obtain ⟨m, hm⟩ := hall e he
    simp only [applyRuleTo, bind_eq_ok, Json.need_eq_ok, Json.getD_eq_ok] at hm
    obtain ⟨role', hrole', kind', hkind', _, ⟨-, rfl⟩, o, ho, -⟩ := hm
    cases hrole.symm.trans hrole'
    cases hkind.symm.trans hkind'
    cases o with
    | none => exact ⟨_, bind_eq_ok.2 ⟨none, ho, rfl⟩⟩
    | some m => exact ⟨_, bind_eq_ok.2 ⟨some m, ho, rfl⟩⟩

/-- Nodes that have been given some roles since. -/
abbrev Grown : Table Key Json → Table Key Json → Prop :=
  Matched fun n m ↦ ∃ added, Appends n m added

lemma Grown.completes_iff (h : Grown nodes now) :
    (∀ e ∈ now, ∃ m, applyRuleTo t e.2 rule = .ok m) ↔
    ∀ e ∈ nodes, ∃ m, applyRuleTo t e.2 rule = .ok m := by
  induction h with
  | nil => rfl
  | cons hhead _ ih =>
    obtain ⟨-, added, hadded⟩ := hhead
    rw [forall_mem_cons, forall_mem_cons, ih, hadded.completes_iff]

/-- Rules can be tried in a row just if each of them can be tried on the nodes as they were. -/
lemma foldlM_applyRule_completes {rules : List Json} :
    (∃ s', rules.foldlM (applyRule t) (nodes, count) = .ok s') ↔
      ∀ rule ∈ rules, Readable rule ∧ ∀ e ∈ nodes, ∃ m, applyRuleTo t e.2 rule = .ok m := by
  refine foldlM_completes_iff (fun s ↦ Grown nodes s.1) ?_ ?_ ?_ rules
  · intro s rule hs
    rw [applyRule_completes, hs.completes_iff]
  · intro s rule s' hs hrun
    refine hs.trans (entrywise_applyRule hrun) fun n m m' ⟨added, hadded⟩ hm ↦ ?_
    obtain ⟨role, -, ⟨rfl, -⟩ | ⟨-, -, happends⟩⟩ := hadded.applyRuleTo hm
    · exact ⟨added, hadded⟩
    · exact ⟨_, happends⟩
  · exact forall₂_same.2 fun e _ ↦ ⟨rfl, [], .refl e.2⟩

def rolesIn (nodes : Table Key Json) : Nat := (nodes.map fun e ↦ roleCount e.2).sum

lemma rolesIn_concat (nodes : Table Key Json) (k : Key) (n : Json) :
    rolesIn (nodes ++ [(k, n)]) = rolesIn nodes + roleCount n := by
  simp [rolesIn]

lemma count_applyRule (h : applyRule t s rule = .ok s') :
    s'.2 + rolesIn s.1 = s.2 + rolesIn s'.1 := by
  simp only [applyRule, bind_eq_ok] at h
  obtain ⟨role, -, kind, -, detection, -, hrun⟩ := h
  refine foldlM_invariant (fun met (now : Table Key Json × Nat) ↦
    now.2 + rolesIn met = s.2 + rolesIn now.1) ?_ rfl hrun
  rintro met ⟨done, count⟩ ⟨k, n⟩ now hmet hn
  obtain ⟨o, ho, hnow⟩ := bind_eq_ok.1 hn
  obtain ⟨hobject, ⟨rfl, -⟩ | ⟨-, -, -, rs, hrs, rfl⟩⟩ := applyTo_cases ho
  · rw [← pure_eq_ok.1 hnow]
    simp only [rolesIn_concat] at hmet ⊢
    omega
  · have hcount : roleCount (n.setMember "semantic_roles" (.arr (rs ++ [role]))) =
        roleCount n + 1 := by
      simp only [roleCount, rolesOf_setMember hobject, hrs, length_append, length_singleton]
    rw [← pure_eq_ok.1 hnow]
    simp only [rolesIn_concat, hcount] at hmet ⊢
    omega

lemma count_rules {rules : List Json}
    (h : rules.foldlM (applyRule t) s = .ok s') : s'.2 + rolesIn s.1 = s.2 + rolesIn s'.1 := by
  refine foldlM_invariant (fun _ (now : Table Key Json × Nat) ↦
    now.2 + rolesIn s.1 = s.2 + rolesIn now.1) ?_ rfl h
  intro met now rule now' hmet hrun
  have hstep := count_applyRule hrun
  omega

abbrev AllGiven (t : Topology) (rules : List Json) : Table Key Json → Table Key Json → Prop :=
  Matched fun n m ↦ ∃ texts, Given t n rules m texts

lemma allGiven_of_rules {rules : List Json}
    (hrules : ∀ rule ∈ rules, NamesRole rule) (h : rules.foldlM (applyRule t) s = .ok s') :
    AllGiven t rules s.1 s'.1 := (entrywise_rules h).imp fun _ _ hm ↦ Given.of_rules hrules hm

lemma AllGiven.rolesIn_eq {rules rules' : List Json} (h : AllGiven t rules nodes done)
    (h' : AllGiven t rules' nodes done')
    (hrules : ∀ rule, rule ∈ rules ↔ rule ∈ rules') : rolesIn done = rolesIn done' := by
  induction h generalizing done' with
  | nil =>
    cases h'
    rfl
  | cons hhead _ ih =>
    cases h' with
    | cons hhead' hrest =>
      obtain ⟨-, texts, hgiven⟩ := hhead
      obtain ⟨-, texts', hgiven'⟩ := hhead'
      have hcount := hgiven.appends.roleCount_eq
      have hcount' := hgiven'.appends.roleCount_eq
      have hlength := hgiven.length_eq hgiven' hrules
      have hrest := ih hrest
      simp only [length_map] at hcount hcount'
      simp only [rolesIn, map_cons, sum_cons] at hrest ⊢
      omega

/-! ## Frameworks in another order -/

/-- Two mappings have the same rules, perhaps in another order. -/
def SameRules (r r' : Reading) : Prop :=
  ∃ rules rules', rulesOf r = .ok rules ∧ rulesOf r' = .ok rules' ∧ rules.Perm rules'

/-- The same frameworks in another order, with the rules of each of them in another order. -/
def Reordered (frameworks others : List Reading) : Prop :=
  ∃ middle, frameworks.Perm middle ∧ List.Forall₂ SameRules middle others

lemma Reordered.rules {frameworks others : List Reading} {lists : List (List Json)}
    (h : Reordered frameworks others) (hlists : frameworks.mapM rulesOf = .ok lists) :
    ∃ lists', others.mapM rulesOf = .ok lists' ∧ lists.flatten.Perm lists'.flatten := by
  obtain ⟨middle, hperm, hsame⟩ := h
  obtain ⟨listsMiddle, hmiddle, hflat⟩ :=
    perm_comp_forall₂ hperm.symm (mapM_eq_ok.1 hlists)
  suffices hothers : ∃ lists', others.mapM rulesOf = .ok lists' ∧
      listsMiddle.flatten.Perm lists'.flatten by
    obtain ⟨lists', hlists', hflat'⟩ := hothers
    exact ⟨lists', hlists', hflat.symm.flatten.trans hflat'⟩
  simp only [mapM_eq_ok]
  clear hperm hflat hlists
  induction hsame generalizing listsMiddle with
  | nil =>
    cases hmiddle
    exact ⟨[], .nil, .refl _⟩
  | cons hhead _ ih =>
    cases hmiddle with
    | cons hrules hrest =>
      obtain ⟨rules, rules', hrules', hothers, hpermRules⟩ := hhead
      cases hrules.symm.trans hrules'
      obtain ⟨lists', hlists', hflat⟩ := ih _ hrest
      exact ⟨rules' :: lists', .cons hothers hlists', hpermRules.append hflat⟩

/-! ## Full runs -/

/-- A number that a graph with roles states about how it was made. -/
def statistic (g : Json) (name : String) : Option Json :=
  ((g.member? "_meta").bind (·.member? "stats")).bind (·.member? name)

lemma statistic_document {p : Plan} (h : document raw report p nodes roles = .ok g) :
    statistic g "preserved" = some (.int p.preserved.length) ∧
      statistic g "enriched" = some (.int p.fresh.length) ∧
      statistic g "roles_applied" = some (.int roles) := by
  simp only [document, bind_eq_ok, pure_eq_ok] at h
  obtain ⟨edges, -, tickets, -, rfl⟩ := h
  exact ⟨rfl, rfl, rfl⟩

lemma exists_document {edges : Json} (hedges : raw.member? "edges" = some edges) (report : Json)
    (p : Plan) (nodes : Table Key Json) (roles : Nat) :
    ∃ g, document raw report p nodes roles = .ok g := by
  simp only [document, bind_eq_ok, Json.need_eq_ok, Json.getD_eq_ok]
  exact ⟨_, edges, hedges, _, ⟨Json.isObject_of_member? hedges, rfl⟩, rfl⟩

lemma document_completes {p : Plan}
    (h : document raw report p nodes roles = .ok g) (nodes' : Table Key Json) (roles' : Nat) :
    ∃ g', document raw report p nodes' roles' = .ok g' := by
  simp only [document, bind_eq_ok] at h ⊢
  obtain ⟨edges, hedges, tickets, htickets, -⟩ := h
  exact ⟨_, edges, hedges, tickets, htickets, rfl⟩

lemma enriched_iff_of_full {before : Json} {frameworks : List Reading}
    (hraw : Tabled raw nodes) (hfull : isFull before report = true) :
    enriched raw before report frameworks = .ok g ↔
      ∃ t lists done count, topologyOf { fresh := nodes } raw = .ok t ∧
        frameworks.mapM rulesOf = .ok lists ∧
        lists.flatten.foldlM (applyRule t) (nodes, 0) = .ok (done, count) ∧
        document raw report { fresh := nodes } done count = .ok g := by
  have hplan : plan raw before report = .ok { fresh := nodes } := by
    obtain ⟨values, hvalues, hbyId⟩ := bind_eq_ok.1 hraw.nodesById
    rw [plan, if_pos hfull]
    simp only [bind_eq_ok, pure_eq_ok]
    exact ⟨values, hvalues, nodes, hbyId, rfl⟩
  simp only [enriched, hplan, complete, bind_eq_ok, Except.ok.injEq, exists_eq_left', Prod.exists,
    foldlM_frameworks (applyFramework_eq _)]
  constructor
  · rintro ⟨t, ht, done, count, ⟨lists, hlists, hrun⟩, hg⟩
    exact ⟨t, lists, done, count, ht, hlists, hrun, hg⟩
  · rintro ⟨t, lists, done, count, ht, hlists, hrun, hg⟩
    exact ⟨t, ht, done, count, ⟨lists, hlists, hrun⟩, hg⟩

/-- A full run has given to each node of the raw graph what it earns by the rules of the frameworks,
and it has counted what it gave. -/
structure FullRun (raw g : Json) (frameworks : List Reading) (nodes : Table Key Json) (t : Topology)
    (rules : List Json) (done : Table Key Json) (count : Nat) : Prop where
  surroundings : topologyOf { fresh := nodes } raw = .ok t
  active : ∀ rule, Active frameworks rule ↔ rule ∈ rules
  tabled : Tabled g done
  keys : done.keys = nodes.keys
  given : AllGiven t rules nodes done
  counted : count + rolesIn nodes = rolesIn done
  stated : statistic g "roles_applied" = some (.int count)

lemma fullRun_of_rules {frameworks : List Reading} {lists : List (List Json)}
    (hraw : Tabled raw nodes)
    (ht : topologyOf { fresh := nodes } raw = .ok t) (hlists : frameworks.mapM rulesOf = .ok lists)
    (hnames : ∀ rule ∈ lists.flatten, NamesRole rule)
    (hrun : lists.flatten.foldlM (applyRule t) (nodes, 0) = .ok (done, count))
    (hg : document raw report { fresh := nodes } done count = .ok g) :
    FullRun raw g frameworks nodes t lists.flatten done count := by
  have hentries := entrywise_rules hrun
  have hkeys : done.keys = nodes.keys := hentries.keys_eq
  have htabled : Tabled g done := by
    refine ⟨?_, hkeys ▸ hraw.distinct, fun k m hm ↦ ?_⟩
    · simp only [document, bind_eq_ok, pure_eq_ok] at hg
      obtain ⟨edges, -, tickets, -, rfl⟩ := hg
      rfl
    · obtain ⟨n, hn, hroles⟩ := hentries.exists_of_mem hm
      obtain ⟨added, happends⟩ := Appends.of_rules hroles
      rw [member?_of_structureOf_eq happends.structures (by decide)]
      exact hraw.identified k n hn
  exact ⟨ht, active_iff hlists, htabled, hkeys, allGiven_of_rules hnames hrun,
    by simpa using count_rules hrun, (statistic_document hg).2.2⟩

namespace FullRun

variable {g' : Json} {frameworks others : List Reading}
  {t' : Topology} {rules rules' : List Json} {count' : Nat}

lemma get? (h : FullRun raw g frameworks nodes t rules done count) {n : Json}
    (hn : nodes.get? k = some n) :
    ∃ m, done.get? k = some m ∧ (∀ r, HasRole m r ↔ HasRole n r ∨ Earned t n rules r) ∧
      ∀ r, 2 ≤ timesListed m r → timesListed m r = timesListed n r := by
  obtain ⟨m, ⟨texts, hgiven⟩, hm⟩ := h.given.get? hn
  exact ⟨m, hm, hgiven.hasRole_iff, fun r ↦ hgiven.timesListed_eq⟩

lemma absent_iff (h : FullRun raw g frameworks nodes t rules done count) :
    done.get? k = none ↔ nodes.get? k = none := by
  rw [Table.get?_eq_none_iff, Table.get?_eq_none_iff, h.keys]

/-- By more rules a node gets no fewer roles. -/
lemma mono (h : FullRun raw g frameworks nodes t rules done count)
    (h' : FullRun raw g' others nodes t' rules' done' count') (hrules : rules ⊆ rules') :
    Aligned (fun _ m m' ↦ ∀ r, HasRole m r → HasRole m' r) done done' := by
  cases h.surroundings.symm.trans h'.surroundings
  refine ⟨fun k hk ↦ h'.absent_iff.2 (h.absent_iff.1 hk), fun k m hm ↦ ?_⟩
  cases hn : nodes.get? k with
  | none =>
    rw [h.absent_iff.2 hn] at hm
    cases hm
  | some n =>
    obtain ⟨m₁, hm₁, hroles, -⟩ := h.get? hn
    obtain ⟨m', hm', hroles', -⟩ := h'.get? hn
    cases hm.symm.trans hm₁
    refine ⟨m', hm', fun r ↦ ?_⟩
    rw [hroles, hroles']
    refine Or.imp_right ?_
    rintro ⟨rule, hrule, hearned⟩
    exact ⟨rule, hrules hrule, hearned⟩

/-- By the same rules a node gets the same roles, and as many roles are given. -/
lemma congr (h : FullRun raw g frameworks nodes t rules done count)
    (h' : FullRun raw g' others nodes t' rules' done' count')
    (hrules : ∀ rule, rule ∈ rules ↔ rule ∈ rules') :
    Aligned (fun _ m m' ↦ ∀ r, HasRole m r ↔ HasRole m' r) done done' ∧
      statistic g' "roles_applied" = statistic g "roles_applied" := by
  have hleft := h.mono h' fun rule ↦ (hrules rule).1
  have hright := h'.mono h fun rule ↦ (hrules rule).2
  refine ⟨⟨hleft.absent, fun k m hm ↦ ?_⟩, ?_⟩
  · obtain ⟨m', hm', hmono⟩ := hleft.present k m hm
    obtain ⟨m₁, hm₁, hmono'⟩ := hright.present k m' hm'
    cases hm.symm.trans hm₁
    exact ⟨m', hm', fun r ↦ ⟨hmono r, hmono' r⟩⟩
  · cases h.surroundings.symm.trans h'.surroundings
    have hsame := h.given.rolesIn_eq h'.given hrules
    have hcount : count' = count := by
      have hcounted := h.counted
      have hcounted' := h'.counted
      omega
    rw [h.stated, h'.stated, hcount]

end FullRun

lemma mirrors_topologyOf
    (hnodes : Identified nodes) (ht : topologyOf { fresh := nodes } raw = .ok t) :
    t.Mirrors nodes := by
  have hsame : t.nodes = nodes := topologyOf_nodes ht
  refine ⟨fun k ↦ by rw [hsame], fun k n hn ↦ ?_⟩
  rw [hsame] at hn
  obtain ⟨id, hid, -⟩ := hnodes k n (Table.mem_of_get? hn)
  exact ⟨id, hid⟩

/-- Roles are determined by the rules that are declared: a node has a role if it had it in the raw
graph or some rule of some framework grants it. Other orders of frameworks and rules give the same
roles and as many of them, more frameworks take none away, and none is listed twice unless it was.
Writing roles into the nodes that later rules look up makes no difference. -/
theorem roles_declared {raw before report g : Json} {frameworks : List Reading}
    {nodes : Table Key Json} (hraw : Tabled raw nodes) (hfull : isFull before report = true)
    (hnames : ∀ rule, Active frameworks rule → NamesRole rule)
    (h : enriched raw before report frameworks = .ok g) :
    ∃ t done, topologyOf { fresh := nodes } raw = .ok t ∧ Tabled g done ∧ done.keys = nodes.keys ∧
      (∀ k n, nodes.get? k = some n → ∃ m, done.get? k = some m ∧
        (∀ r, HasRole m r ↔ HasRole n r ∨ ∃ rule, Active frameworks rule ∧
          rule.member? "semantic_role" = some (.str r) ∧ Earns t n rule) ∧
        ∀ r, 2 ≤ timesListed m r → timesListed m r = timesListed n r) ∧
      (∀ others, Reordered frameworks others →
        ∃ g' done', enriched raw before report others = .ok g' ∧ Tabled g' done' ∧
          Aligned (fun _ m m' ↦ ∀ r, HasRole m r ↔ HasRole m' r) done done' ∧
          statistic g' "roles_applied" = statistic g "roles_applied") ∧
      (∀ more g', frameworks ⊆ more → (∀ rule, Active more rule → NamesRole rule) →
        enriched raw before report more = .ok g' →
        ∃ done', Tabled g' done' ∧
          Aligned (fun _ m m' ↦ ∀ r, HasRole m r → HasRole m' r) done done') ∧
      ∃ count, frameworks.foldlM (applyFrameworkInPlace t) (nodes, 0) = .ok (done, count) ∧
        statistic g "roles_applied" = some (.int count) := by
  obtain ⟨t, lists, done, count, ht, hlists, hrun, hg⟩ := (enriched_iff_of_full hraw hfull).1 h
  have hnames' : ∀ rule ∈ lists.flatten, NamesRole rule := fun rule hrule ↦
    hnames rule ((active_iff hlists rule).2 hrule)
  have hfullRun := fullRun_of_rules hraw ht hlists hnames' hrun hg
  refine ⟨t, done, ht, hfullRun.tabled, hfullRun.keys, fun k n hn ↦ ?_, fun others hothers ↦ ?_,
    fun more g' hmore hnamesMore hg' ↦ ?_, count, ?_, hfullRun.stated⟩
  · obtain ⟨m, hm, hroles, htimes⟩ := hfullRun.get? hn
    refine ⟨m, hm, fun r ↦ ?_, htimes⟩
    simp only [hroles, Earned, hfullRun.active]
  · obtain ⟨lists', hlists', hperm⟩ := hothers.rules hlists
    have hsame (rule : Json) : rule ∈ lists.flatten ↔ rule ∈ lists'.flatten := hperm.mem_iff
    have hcompletes := foldlM_applyRule_completes.1 ⟨_, hrun⟩
    simp only [hsame] at hcompletes
    have hexists : ∃ s', lists'.flatten.foldlM (applyRule t) (nodes, 0) = .ok s' :=
      foldlM_applyRule_completes.2 hcompletes
    obtain ⟨⟨done', count'⟩, hrun'⟩ := hexists
    obtain ⟨g', hg'⟩ := document_completes hg done' count'
    have hfullRun' :=
      fullRun_of_rules hraw ht hlists' (by simpa only [hsame] using hnames') hrun' hg'
    refine ⟨g', done', ?_, hfullRun'.tabled, hfullRun.congr hfullRun' hsame⟩
    exact (enriched_iff_of_full hraw hfull).2 ⟨t, lists', done', count', ht, hlists', hrun', hg'⟩
  · obtain ⟨t', lists', done', count', ht', hlists', hrun', hdocument⟩ :=
      (enriched_iff_of_full hraw hfull).1 hg'
    have hfullRun' := fullRun_of_rules hraw ht' hlists'
      (fun rule hrule ↦ hnamesMore rule ((active_iff hlists' rule).2 hrule)) hrun' hdocument
    refine ⟨done', hfullRun'.tabled, hfullRun.mono hfullRun' fun rule hrule ↦ ?_⟩
    obtain ⟨r, hr, hactive⟩ := (hfullRun.active rule).2 hrule
    exact (hfullRun'.active rule).1 ⟨r, hmore hr, hactive⟩
  · refine (foldlM_frameworks fun _ _ ↦ rfl).2 ⟨lists, hlists, ?_⟩
    rw [foldlM_applyRuleInPlace hraw.distinct (mirrors_topologyOf hraw.identified ht), hrun]

/-! ## An order of two frameworks -/

/-- A class that extends a model and is said twice to be audited. -/
def auditedNodes : Table Key Json :=
  [classEntry "b.py::Model" "Model",
    (.str "b.py::Order", .obj [("id", .str "b.py::Order"), ("node_type", .str "Class"),
      ("name", .str "Order"), ("semantic_roles", .arr [.str "audited", .str "audited"])])]

def auditedGraph : Json :=
  graphOf auditedNodes [edgeOf "extends" "b.py::Order" "b.py::Model"]

/-- Gives the role of an entity to classes that extend a model. -/
def entityRule : Json :=
  .obj [("semantic_role", .str "entity"), ("core_node", .str "Class"),
    ("detection_rules", .obj [("inheritance_includes", .arr [.str "Model"])])]

/-- Gives the role of a record to classes by their name. -/
def recordRule : Json :=
  .obj [("semantic_role", .str "record"), ("core_node", .str "Class"),
    ("detection_rules", .obj [("function_name", .arr [.str "Model", .str "Order"])])]

/-- Two frameworks, of which both give the role of an entity. -/
def orderFrameworks : List Reading :=
  [.ok (some (.obj [("mappings", .arr [entityRule, recordRule])])),
    .ok (some (.obj [("mappings", .arr [entityRule])]))]

lemma tabled_auditedGraph : Tabled auditedGraph auditedNodes :=
  Listed.tabled ⟨rfl, by decide, by decide⟩

lemma namesRole_orderFrameworks (rule : Json) (h : Active orderFrameworks rule) :
    NamesRole rule := by
  have hlists : orderFrameworks.mapM rulesOf = .ok [[entityRule, recordRule], [entityRule]] := rfl
  have hrule : rule = entityRule ∨ rule = recordRule ∨ rule = entityRule := by
    simpa using (active_iff hlists rule).1 h
  rcases hrule with rfl | rfl | rfl
  · exact ⟨"entity", rfl⟩
  · exact ⟨"record", rfl⟩
  · exact ⟨"entity", rfl⟩

theorem roles_declared_orders :
    ∃ g done m, enriched auditedGraph .null .null orderFrameworks = .ok g ∧ Tabled g done ∧
      done.get? (.str "b.py::Order") = some m ∧ HasRole m "entity" ∧ timesListed m "entity" ≤ 1 ∧
      ∃ g', enriched auditedGraph .null .null orderFrameworks.reverse = .ok g' ∧
        statistic g' "roles_applied" = statistic g "roles_applied" := by
  have hrun : ∃ g, enriched auditedGraph .null .null orderFrameworks = .ok g := ⟨_, rfl⟩
  obtain ⟨g, hg⟩ := hrun
  obtain ⟨t, done, ht, hdone, -, hroles, hothers, -⟩ :=
    roles_declared tabled_auditedGraph rfl namesRole_orderFrameworks hg
  obtain ⟨m, hm, hiff, htimes⟩ := hroles (.str "b.py::Order") _ rfl
  have hreversed : Reordered orderFrameworks orderFrameworks.reverse := by
    refine ⟨_, (reverse_perm _).symm, ?_⟩
    exact .cons ⟨_, _, rfl, rfl, .refl _⟩ (.cons ⟨_, _, rfl, rfl, .refl _⟩ .nil)
  obtain ⟨g', done', hg', -, -, hcount⟩ := hothers _ hreversed
  refine ⟨g, done, m, hg, hdone, hm, ?_, ?_, g', hg', hcount⟩
  · refine (hiff "entity").2 (.inr ⟨entityRule, ⟨_, mem_cons_self, _, rfl, by simp⟩, rfl, ?_⟩)
    obtain rfl := Except.ok.inj (ht.symm.trans rfl)
    exact ⟨_, rfl, rfl, rfl⟩
  · by_contra hmore
    have hnone : timesListed m "entity" = 0 := htimes "entity" (by omega)
    omega

end CodeAtlas.Graph.Enrichment
