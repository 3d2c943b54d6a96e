import CodeAtlas.Proofs.TaskRuns

/-!
# What becomes of calls

The second pass records a call by an edge, or by a ticket in the name of the scope that it is in. It
does so for each call that it comes to, once. It comes to all calls inside registered definitions,
except that it never looks into an assignment: a call there leaves no record at all.
-/

namespace CodeAtlas.Build

open Fallible Stepwise List
open Script (Node)

variable {p : Place} {registry : Table String Json}

/-- Whether a ticket of a kind about an expression is about a call: its target is not proven, or its
edge is refused or has no name. -/
def namesCall (kind expression : String) : Bool :=
  kind == "call_target_unknown" ||
    (kind == "schema_violation" && Text.startsWith expression "calls -> ") ||
    (kind == "mapping_violation" && expression == "calls")

/-- The scope for which a ticket records a call. -/
def callerOfTicket (t : Json) : Option Json :=
  match t.member? "kind", t.member? "expression" with
  | some (.str kind), some (.str expression) =>
    if namesCall kind expression then t.member? "source_scope" else none
  | _, _ => none

def callerOfEdge (e : Json) : Option Json :=
  if e.member? "edge" = some (.str "calls") then e.member? "from" else none

/-- The scopes for which calls are recorded, each as often as there are records. -/
def callRecords (d : Draft) : Multiset Json :=
  (d.edges.filterMap callerOfEdge : Multiset Json) +
  (d.ambiguities.filterMap callerOfTicket : List Json)

def ticketRecords (kind expression scope : String) : Multiset Json :=
  if namesCall kind expression then {.str scope} else 0

lemma coe_filterMap_concat (f : Json → Option Json) (xs : List Json) (x : Json) :
    ((xs ++ [x]).filterMap f : Multiset Json) = (xs.filterMap f : List Json) + (f x).toList := by
  rw [filterMap_append, Multiset.coe_add]
  cases h : f x <;> simp [h]

lemma Survey.callRecords_linked (s : Survey) (e : Json) :
    callRecords (s.linked e).draft = callRecords s.draft + (callerOfEdge e).toList := by
  show ((s.draft.edges ++ [e]).filterMap callerOfEdge : Multiset Json) + _ = _ + _ + _
  rw [coe_filterMap_concat, add_right_comm]
  rfl

lemma Survey.Ticketed.callRecords {kind expression scope : String} {s s' : Survey}
    (h : Ticketed kind expression scope s s') :
    callRecords s'.draft = callRecords s.draft + ticketRecords kind expression scope := by
  obtain ⟨t, resolver, rfl, hexpression, hscope, rfl⟩ := h
  have hticket (number : Nat) : callerOfTicket (t.document number resolver) =
      if namesCall t.kind expression then some (.str scope) else none := by
    rw [← hscope, callerOfTicket]
    have hmember : (t.document number resolver).member? "expression" = some (.str expression) :=
      hexpression ▸ rfl
    rw [hmember]
    rfl
  show _ + ((s.draft.ambiguities ++ [t.document _ resolver]).filterMap callerOfTicket :
    Multiset Json) = _ + _ + _
  rw [coe_filterMap_concat, hticket, ticketRecords, add_assoc]
  split <;> rfl

/-- What comes of an edge of the second pass is known from its relation: it records a call or it
does not, whether it is added or refused. -/
lemma Survey.Emitted.callRecords {relation source target : String} {details : List (String × Json)}
    (hrelation : relation ∈ ["calls", "decorates", "extends", "import", "import_from", "writes_to"])
    (hdetails : AreDetails details) {s s' : Survey}
    (h : Emitted scriptSetup relation source target details s s') : callRecords s'.draft =
      callRecords s.draft + if relation = "calls" then {.str source} else 0 := by
  obtain ⟨name, htype, hname, hrefused, hunmapped⟩ : ∃ name,
      scriptSetup.schema.edgeType relation = .ok (.str name) ∧
      (name = "calls" ↔ relation = "calls") ∧
      namesCall "schema_violation" (relation ++ " -> " ++ (Json.str name).display) =
        decide (relation = "calls") ∧
      namesCall "mapping_violation" relation = decide (relation = "calls") := by
    simp only [mem_cons, not_mem_nil, or_false] at hrelation
    rcases hrelation with rfl | rfl | rfl | rfl | rfl | rfl
    all_goals exact ⟨_, rfl, by decide, by decide, by decide⟩
  cases h with
  | added hedge =>
    cases htype.symm.trans hedge
    have hcaller : callerOfEdge (.obj (Table.merge [("edge", .str name), ("from", .str source),
        ("to", .str target)] details)) = if relation = "calls" then some (.str source)
        else none := by
      rw [callerOfEdge, member?_of_areDetails hdetails (by simp),
        member?_of_areDetails hdetails (by simp)]
      simp [Table.get?, hname]
    rw [callRecords_linked, hcaller]
    split <;> rfl
  | refused hedge h =>
    cases htype.symm.trans hedge
    rw [h.callRecords, ticketRecords, hrefused]
    simp
  | unmapped h =>
    rw [h.callRecords, ticketRecords, hunmapped]
    simp

namespace References

/-- Whether the second pass comes to a place: it enters what is registered, and no assignment. -/
def reached (registry : Table String Json) (q : Place) : Bool :=
  !q.assigned && q.within.all (· ∈ registry.keys)

/-- A record for each call at a place that is reached. -/
def recordsAt (registry : Table String Json) (places : List Place) : Multiset Json :=
  ((places.filter (reached registry)).map fun q ↦ Json.str q.scope : List Json)

section

variable {known : List String}

lemma reached_of_encloses {q : Place} (h : p.Encloses q) (hq : reached registry q = true) :
    reached registry p = true := by
  simp only [reached, Bool.and_eq_true, Bool.not_eq_true', all_eq_true] at hq ⊢
  refine ⟨?_, fun id hid ↦ hq.2 id (h.within hid)⟩
  by_contra hassigned
  rw [h.assigned (by simpa using hassigned)] at hq
  cases hq.1

lemma recordsAt_append (ps qs : List Place) :
    recordsAt registry (ps ++ qs) = recordsAt registry ps + recordsAt registry qs := by
  rw [recordsAt, filter_append, map_append, ← Multiset.coe_add]
  rfl

lemma recordsAt_of_encloses {places : List Place} (h : ∀ q ∈ places, p.Encloses q)
    (hp : reached registry p = false) : recordsAt registry places = 0 := by
  have hnone : places.filter (reached registry) = [] := by
    refine filter_eq_nil_iff.2 fun q hq hreached ↦ ?_
    rw [reached_of_encloses (h q hq) hreached] at hp
    cases hp
  rw [recordsAt, hnone]
  rfl

lemma reached_inside (hp : reached registry p = true) (name : String) (isFunction : Bool) :
    reached registry (p.inside name isFunction) =
    decide (symbolId p.scope name ∈ registry.keys) := by
  rw [reached, Bool.and_eq_true] at hp
  simp [reached, Place.inside, hp.1, hp.2]

lemma callPlaces_of_definedName? {d : Node} {name : String} (h : definedName? d = some name)
    (p : Place) :
    ∃ isFunction, callPlaces p d = callPlacesAll (p.inside name isFunction) d.children := by
  obtain ⟨form, span, children⟩ := d
  cases form with
  | classDef =>
    cases h
    exact ⟨false, rfl⟩
  | function =>
    cases h
    exact ⟨true, rfl⟩
  | _ => cases h

end

namespace Task

/-- A task that adds an edge or a ticket, if it does so by itself, for one of the references that
there are. -/
def IsUsual : Task → Prop
  | .link relation _ _ details =>
    relation ∈ ["calls", "decorates", "extends", "import", "import_from", "writes_to"] ∧
      Survey.AreDetails details
  | .note kind _ _ _ => kind ≠ "schema_violation" ∧ kind ≠ "mapping_violation"
  | _ => True

/-- The records of calls that a task leaves at a place. -/
def calls (registry : Table String Json) (p : Place) : Task → Multiset Json
  | .node _ n => recordsAt registry (callPlaces p n)
  | .call .. => {.str p.scope}
  | .link relation a _ _ => if relation = "calls" then {.str a} else 0
  | .note kind _ _ scope => if kind = "call_target_unknown" then {.str scope} else 0
  | _ => 0

variable {path : String} {s s' : State} {t u : Task} {ts : List Task}

lemma Part.isUsual (h : Part s t u) : u.IsUsual := by
  cases h with
  | link ht _ _ hdetails =>
    cases t with
    | decorator | base | call | importFile | importFrom | imported | target =>
      cases ht
      exact ⟨by simp, hdetails⟩
    | _ => cases ht
  | note ht =>
    cases t with
    | decorator | base | call | importFile | importFrom | imported | target =>
      cases ht
      exact ⟨by decide, by decide⟩
    | _ => cases ht
  | _ => trivial

lemma Part.calls_eq_zero (h : Part s t u) (hnode : ∀ depth n, t ≠ .node depth n)
    (hcall : ∀ line n, t ≠ .call line n) : u.calls registry p = 0 := by
  cases h with
  | link ht | note ht =>
    cases t with
    | decorator | base | importFile | importFrom | imported | target =>
      cases ht
      simp [calls]
    | call => exact absurd rfl (hcall _ _)
    | _ => cases ht
  | imported | named => rfl
  | _ => exact absurd rfl (hnode _ _)

lemma sum_calls_nodes (depth : Nat) (ns : List Node) :
    ((ns.map (.node depth)).map (calls registry p)).sum =
    recordsAt registry (callPlacesAll p ns) := by
  induction ns with
  | nil => rfl
  | cons n rest ih =>
    rw [map_cons, map_cons, sum_cons, ih, callPlacesAll, recordsAt_append]
    rfl

lemma sum_calls_eq_zero (h : ∀ u ∈ ts, u.calls registry p = 0) :
    (ts.map (calls registry p)).sum = 0 :=
  sum_eq_zero (forall_mem_map.2 h)

/-- What a node falls into leaves the records of its calls, if it is no definition. -/
lemma sum_calls_nodeParts (depth : Nat) {n : Node} (hn : definedName? n = none)
    (hp : reached registry p = true) : ∃ q, reached registry q = true ∧ q.scope = p.scope ∧
      ((nodeParts s depth n).map (calls registry q)).sum = recordsAt registry (callPlaces p n) := by
  obtain ⟨form, span, children⟩ := n
  cases form with
  | classDef | function => cases hn
  | call count =>
    refine ⟨p, hp, rfl, ?_⟩
    rw [nodeParts, map_append, sum_append, sum_calls_nodes, callPlaces, recordsAt_append]
    cases children with
    | nil => rfl
    | cons => simp [calls, recordsAt, hp]
  | annAssign => exact ⟨{ p with annotated := true }, hp, rfl, sum_calls_nodes _ children⟩
  | import_ | importFrom => exact ⟨p, hp, rfl, sum_calls_eq_zero (by simp [nodeParts, calls])⟩
  | assign count =>
    refine ⟨p, hp, rfl, (sum_calls_eq_zero (by simp [nodeParts, calls])).trans ?_⟩
    exact (recordsAt_of_encloses (p := { p with assigned := true })
      (fun q ↦ encloses_of_mem_callPlacesAll children) rfl).symm
  | _ => exact ⟨p, hp, rfl, sum_calls_nodes _ children⟩

lemma sum_calls_parts (hparts : t.parts path s = .ok ts) (hstep : t.isStep = false)
    (ht : ∀ depth d, t = .node depth d → definedName? d = none) (hp : reached registry p = true)
    (hscope : scopeId s = p.scope) : ∃ q, reached registry q = true ∧ q.scope = p.scope ∧
      (ts.map (calls registry q)).sum = t.calls registry p := by
  cases t with
  | node depth n =>
    obtain ⟨-, -, hparts⟩ := bind_eq_ok.1 hparts
    obtain rfl := pure_eq_ok.1 hparts
    exact sum_calls_nodeParts depth (ht depth n rfl) hp
  | call line callee =>
    refine ⟨p, hp, rfl, ?_⟩
    rcases of_resolved hparts with ⟨id, -, rfl⟩ | ⟨text, rfl⟩ <;> simp [calls, hscope]
  | link | note | named | enter | leave => cases hstep
  | _ =>
    refine ⟨p, hp, rfl, sum_calls_eq_zero fun u hu ↦ ?_⟩
    exact (part_of_mem hparts hu).calls_eq_zero (by simp) (by simp)

/-- Where a task comes to its end at a place that is reached, it has recorded the calls there. -/
def Notes (path : String) (registry : Table String Json) (t : Task) : Prop :=
  t.isLevel = true → t.IsUsual → t.Known registry → ∀ p s s', reached registry p = true →
    Proven registry s → s.ids.head? = some p.scope → t.run scriptSetup path s = .ok () s' →
    callRecords s'.survey.draft = callRecords s.survey.draft + t.calls registry p

lemma callRecords_runAll (hlevel : ∀ t ∈ ts, t.isLevel = true)
    (hts : ∀ t ∈ ts, t.IsUsual ∧ t.Known registry ∧ Notes path registry t)
    (hp : reached registry p = true) (hs : Proven registry s) (hscope : s.ids.head? = some p.scope)
    (hrun : runAll scriptSetup path ts s = .ok () s') : callRecords s'.survey.draft =
      callRecords s.survey.draft + (ts.map (calls registry p)).sum := by
  induction ts generalizing s with
  | nil =>
    cases hrun
    exact (add_zero _).symm
  | cons t ts ih =>
    obtain ⟨ht, hlevel⟩ := forall_mem_cons.1 hlevel
    obtain ⟨⟨husual, hknown, hnotes⟩, hts⟩ := forall_mem_cons.1 hts
    obtain ⟨_, middle, hmiddle, hrest⟩ := run_bind_eq_ok.1 hrun
    have hproven := (keeps_proven_run scriptSetup path hknown.isGrounded).of_ok hs hmiddle
    have hids : middle.ids = s.ids := (isGrowing_run t ht s middle hmiddle).ids
    rw [ih hlevel hts hproven (hids ▸ hscope) hrest,
      hnotes ht husual hknown p s middle hp hs hscope hmiddle, map_cons, sum_cons, add_assoc]

/-- A definition is entered, and what it holds is at a place inside it. -/
lemma callRecords_inside {name : String} {front body : List Task}
    (hfront : ∀ u ∈ front, u.owner?.isSome = true) (hbody : ∀ u ∈ body, u.isLevel = true)
    (hts : ∀ u ∈ front ++ .enter (symbolId p.scope name) :: body,
      u.IsUsual ∧ u.Known registry ∧ Notes path registry u)
    (hp : reached registry p = true) (hs : Proven registry s) (hscope : s.ids.head? = some p.scope)
    (hrun : runAll scriptSetup path (front ++ .enter (symbolId p.scope name) :: body) s = .ok () s')
    (isFunction : Bool) : callRecords s'.survey.draft =
      callRecords s.survey.draft + (body.map (calls registry (p.inside name isFunction))).sum := by
  rw [runAll_append] at hrun
  obtain ⟨_, before, hbefore, hrun⟩ := run_bind_eq_ok.1 hrun
  obtain ⟨_, entered, hentered, hrun⟩ := run_bind_eq_ok.1 hrun
  obtain ⟨scope, hscopeOf, rfl⟩ := scopes_enter hentered
  obtain ⟨hquiet, hts⟩ := forall_mem_append.1 hts
  obtain ⟨⟨-, hknown, -⟩, hinside⟩ := forall_mem_cons.1 hts
  have hid : symbolId p.scope name ∈ registry.keys := hknown
  have hproven : Proven registry before := by
    refine (Keeps.forM fun u hu ↦ ?_).of_ok hs hbefore
    exact keeps_proven_run scriptSetup path (hquiet u hu).2.1.isGrounded
  have hrecords : callRecords before.survey.draft = callRecords s.survey.draft := by
    rw [callRecords_runAll (fun u hu ↦ (level_of_owner? (hfront u hu)).1) hquiet hp
      hs hscope hbefore, sum_calls_eq_zero fun u hu ↦ ?_, add_zero]
    have howner := hfront u hu
    cases u with
    | decorator | base => rfl
    | _ => cases howner
  have hkeys : symbolId p.scope name ∈ before.survey.registry.keys := hproven.unchanged ▸ hid
  rw [callRecords_runAll (p := p.inside name isFunction) hbody hinside ?_ ?_ ?_ hrun, hrecords]
  · rw [reached_inside hp, decide_eq_true hid]
  · exact (keeps_proven_run scriptSetup path (t := .enter _) hid).of_ok hproven hentered
  · exact congrArg some (grounded_scopeOf hkeys hscopeOf).2

variable {known : List String} (hregistry : Registered known registry)
include hregistry

lemma notes_step (ht : t.isStep = true) : Notes path registry t := by
  intro hlevel husual hknown p s s' hp hs hscope hrun
  have hunchanged := hs.unchanged
  subst hunchanged
  cases t with
  | link relation a b details =>
    have hends := ends_onSurvey
      (Survey.ends_emitEdge scriptSetup relation details hregistry hknown.1 hknown.2)
    exact (hends.1 () s' hrun).2.callRecords husual.1 husual.2
  | note kind expression reason scope =>
    have hends := ends_onSurvey (s := s)
      (Survey.ends_emitTicket scriptSetup kind expression reason scope "unresolved" s.survey)
    rw [(hends.1 () s' hrun).2.callRecords]
    simp [ticketRecords, namesCall, calls, husual.1, husual.2]
  | named name b =>
    have hkept : s'.survey = s.survey := by
      obtain ⟨survey, scopes⟩ := s
      cases scopes <;> cases hrun <;> rfl
    rw [hkept]
    exact (add_zero _).symm
  | enter | leave => cases hlevel
  | _ => cases ht

/-- A task that comes to its end has recorded the calls that it reaches, each once, and no others.
-/
lemma notes_run (path : String) (t : Task) : Notes path registry t := by
  induction t using induction_on with
  | h t ih =>
    intro hlevel husual hknown p s s' hp hs hscope hrun
    cases hstep : t.isStep with
    | true => exact notes_step hregistry hstep hlevel husual hknown p s s' hp hs hscope hrun
    | false =>
      obtain ⟨ts, hparts, hdone⟩ := (falls_run hstep s).of_ok hrun
      have hids : s.ids ≠ [] := by
        rintro hnil
        rw [hnil] at hscope
        cases hscope
      have hts : ∀ u ∈ ts, u.IsUsual ∧ u.Known registry ∧ Notes path registry u := fun u hu ↦
        have hpart := part_of_mem hparts hu
        ⟨hpart.isUsual, hpart.known ⟨hs, hids, hknown⟩, ih s u hpart⟩
      have hid : scopeId s = p.scope := by rw [scopeId_eq, hscope]; rfl
      cases framed_parts hparts with
      | level ht hu =>
        obtain ⟨q, hq, hqscope, hsum⟩ := sum_calls_parts hparts hstep ht hp hid
        rw [callRecords_runAll (fun u h ↦ (hu u h).1) hts hq hs (hqscope ▸ hscope) hdone, hsum]
      | @nothing depth d name hd hnone =>
        -- No place inside counts as reached.
        obtain ⟨isFunction, hplaces⟩ := callPlaces_of_definedName? hd p
        have hzero : calls registry p (.node depth d) = 0 := by
          rw [calls, hplaces]
          refine recordsAt_of_encloses (fun q ↦ encloses_of_mem_callPlacesAll d.children) ?_
          rw [reached_inside hp, decide_eq_false_iff_not, ← hid, ← hs.unchanged]
          exact fun hmem ↦ hnone ((Survey.isSome_node?_iff (hs.unchanged ▸ hregistry)).2 hmem)
        cases hdone
        rw [hzero, add_zero]
      | @inside depth depth' d name front hd hfront =>
        obtain ⟨isFunction, hplaces⟩ := callPlaces_of_definedName? hd p
        rw [hid] at hts hdone
        rw [runAll_append] at hdone
        obtain ⟨_, last, hlast, hdone⟩ := run_bind_eq_ok.1 hdone
        cases hdone
        have hbody := callRecords_inside hfront (level_body _ _ _)
          (fun u hu ↦ hts u (mem_append_left _ hu)) hp hs hscope hlast isFunction
        rw [hbody, calls, hplaces, map_append, sum_append, sum_calls_nodes,
          sum_calls_eq_zero (by simp [calls]), zero_add]

end Task

end References

end CodeAtlas.Build
