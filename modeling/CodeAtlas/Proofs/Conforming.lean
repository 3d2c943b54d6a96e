import CodeAtlas.Graph.Conformance
import CodeAtlas.Proofs.NodeTables

/-!
# What the check says

The check of a graph knows its nodes by id, or by name where there is no id, and takes for the kind
of a node its type, or its node type where there is none. Here is for each part of the check when it
finds nothing wrong, and when it comes to an end at all.
-/

namespace CodeAtlas.Graph

open Fallible List Json Table CoreSchema

namespace Conformance

variable {s : CoreSchema} {edges nodes errors tickets warnings : List Json}
  {e n v rule graph : Json} {types : Types} {edgeTypes : Table String Json} {r : Report}

/-! ## Nodes -/

/-- What the check knows a node by. -/
def identifier (n : Json) : Json :=
  ((n.member? "id").getD .null).orElse ((n.member? "name").getD .null)

/-- What the check takes for the kind of a node. -/
def kindOf (n : Json) : Json :=
  ((n.member? "type").getD .null).orElse ((n.member? "node_type").getD .null)

/-- The kind of the last node that is known by a key. -/
def kindUnder (nodes : List Json) (k : Key) : Option Json :=
  lastUnder (fun n ↦ ((identifier n).key?, kindOf n)) nodes k

/-- A node is known by something, and is of one of some kinds. -/
def NodeFits (kinds : List String) (n : Json) : Prop :=
  (identifier n).truthy = true ∧ ∃ kind ∈ kinds, kindOf n = .str kind ∧ kind ≠ ""

lemma NodeFits.truthy {kinds : List String} (h : NodeFits kinds n) :
    (identifier n).truthy = true ∧ (kindOf n).truthy = true := by
  obtain ⟨hid, kind, -, hkind, hne⟩ := h
  exact ⟨hid, hkind ▸ truthy_str.2 hne⟩

lemma knowsNode_of_key {k : Key} (hk : v.key? = some k) :
    s.knowsNode v = .ok (v.asStr?.any s.nodeTypes.contains) := by
  rw [knowsNode, key_eq_ok.2 hk]
  cases k with
  | str name =>
    rw [key?_eq_str.1 hk]
    rfl
  | _ =>
    cases v with
    | str => cases hk
    | _ => rfl

lemma knowsNode_eq_ok {known : Bool} (h : s.knowsNode v = .ok known) :
    known = true ↔ ∃ kind ∈ s.nodeTypes, v = .str kind := by
  obtain ⟨k, hk, -⟩ := bind_eq_ok.1 h
  obtain rfl := Except.ok.inj ((knowsNode_of_key (key_eq_ok.1 hk)).symm.trans h)
  cases v <;> simp [asStr?]

/-- Nothing is wrong with a node just if it fits; and if it has an id and a kind, the kind is known.
-/
lemma checkNode_spec {types' : Types} (h : checkNode s types n = .ok (types', errors)) :
    (errors = [] ↔ NodeFits s.nodeTypes n) ∧
    ((identifier n).truthy = true → (kindOf n).truthy = true →
        ∃ k, (identifier n).key? = some k ∧ types' = types.put k (kindOf n)) := by
  simp only [checkNode, bind_eq_ok, get_eq_ok] at h
  obtain ⟨_, ⟨-, rfl⟩, _, ⟨-, rfl⟩, _, ⟨-, rfl⟩, _, ⟨-, rfl⟩, h⟩ := h
  change (if !(identifier n).truthy then _ else if !(kindOf n).truthy then _ else _) = _ at h
  split at h
  next hid =>
    rw [Bool.not_eq_true'] at hid
    cases h
    simp [NodeFits, hid]
  next hid =>
    rw [Bool.not_eq_true', Bool.not_eq_false] at hid
    split at h
    next hkind =>
      cases h
      refine ⟨iff_of_false (cons_ne_nil _ _) ?_, fun _ htrue ↦ ?_⟩
      · rintro ⟨-, kind, -, heq, hne⟩
        rw [heq, truthy_str.2 hne] at hkind
        cases hkind
      · rw [htrue] at hkind
        cases hkind
    next hkind =>
      simp only [bind_eq_ok, key_eq_ok] at h
      obtain ⟨k, hk, known, hknown, h⟩ := h
      change s.knowsNode (kindOf n) = _ at hknown
      have hfits : known = true ↔ NodeFits s.nodeTypes n := by
        rw [knowsNode_eq_ok hknown]
        refine ⟨fun ⟨kind, hmem, heq⟩ ↦ ⟨hid, kind, hmem, heq, ?_⟩,
          fun ⟨_, kind, hmem, heq, _⟩ ↦ ⟨kind, hmem, heq⟩⟩
        rintro rfl
        rw [heq] at hkind
        exact hkind rfl
      cases known <;> cases h <;> exact ⟨by simp [← hfits], fun _ _ ↦ ⟨k, hk, rfl⟩⟩

lemma checkNodes_spec (h : checkNodes s nodes = .ok (types, errors)) :
    (errors = [] ↔ ∀ n ∈ nodes, NodeFits s.nodeTypes n) ∧
      ((∀ n ∈ nodes, (identifier n).truthy = true ∧ (kindOf n).truthy = true) →
        ∀ k, types.get? k = kindUnder nodes k) := by
  refine foldlM_invariant (fun met (found : Types × List Json) ↦
    (found.2 = [] ↔ ∀ n ∈ met, NodeFits s.nodeTypes n) ∧
      ((∀ n ∈ met, (identifier n).truthy = true ∧ (kindOf n).truthy = true) →
        ∀ k, found.1.get? k = kindUnder met k)) ?_ ⟨by simp, fun _ _ ↦ rfl⟩ h
  rintro met ⟨types, errors⟩ n ⟨types', errors'⟩ ⟨hmet, hkinds⟩ hstep
  simp only [bind_eq_ok, pure_eq_ok, Prod.mk.injEq] at hstep
  obtain ⟨⟨_, found⟩, hn, rfl, rfl⟩ := hstep
  obtain ⟨hfits, hknown⟩ := checkNode_spec hn
  refine ⟨?_, fun htrue k ↦ ?_⟩
  · rw [append_eq_nil_iff, hmet, hfits, forall_mem_append, forall_mem_singleton]
  · obtain ⟨hid, hkind⟩ := htrue n (by simp)
    obtain ⟨key, hkey, rfl⟩ := hknown hid hkind
    rw [get?_put, hkinds fun m hm ↦ htrue m (mem_append_left _ hm), kindUnder, kindUnder,
      lastUnder_concat _ _ hkey]

/-! ## Edges -/

def AdmitsKind (rule : Json) (ending kind : String) : Prop :=
  ∃ v ends, rule.getD ending (.arr []) = .ok v ∧ v.elements = .ok ends ∧ .str kind ∈ ends

lemma mem_distinct {ends : List Json} {seen : Table Key Json}
    (h : ends.foldlM (fun (seen : Table Key Json) e ↦ do
      let k ← e.key
      return if seen.contains k then seen else seen ++ [(k, e)]) [] = (.ok seen : Except Fault _))
    (name : String) : .str name ∈ seen.values ↔ .str name ∈ ends := by
  refine (foldlM_invariant (fun met (seen : Table Key Json) ↦ (∀ e ∈ seen, e.2.key? = some e.1) ∧
    (.str name ∈ seen.values ↔ .str name ∈ met)) ?_ (by simp [values]) h).2
  rintro met seen v _ ⟨hkeyed, hmem⟩ hstep
  simp only [bind_eq_ok, pure_eq_ok, key_eq_ok] at hstep
  obtain ⟨k, hk, rfl⟩ := hstep
  rw [mem_append, mem_singleton, ← hmem]
  split
  next hthere =>
    refine ⟨hkeyed, .inl, fun hname ↦ hname.elim id ?_⟩
    rintro rfl
    obtain ⟨⟨_, w⟩, he, rfl⟩ := mem_map.1 (contains_iff.1 hthere)
    obtain rfl := Option.some.inj hk
    exact mem_map.2 ⟨_, he, key?_eq_str.1 (hkeyed _ he)⟩
  next =>
    exact ⟨forall_mem_append.2 ⟨hkeyed, forall_mem_singleton.2 hk⟩, by simp [values]⟩

lemma allowedEnds_spec {ending : String} {kinds : List Json}
    (h : allowedEnds rule ending = .ok kinds)
    (kind : String) : (kinds.any fun v ↦ v.alike kind) = true ↔ AdmitsKind rule ending kind := by
  simp only [allowedEnds, bind_eq_ok, pure_eq_ok] at h
  obtain ⟨v, hv, ends, hends, seen, hseen, rfl⟩ := h
  simp [AdmitsKind, hv, hends, alike_str, mem_distinct hseen]

lemma checkTriple_spec {edge : Json} {source target : String}
    (h : checkTriple rule edge source target = .ok errors) :
    errors = [] ↔ AdmitsKind rule "from" source ∧ AdmitsKind rule "to" target := by
  simp only [checkTriple, bind_eq_ok, pure_eq_ok] at h
  obtain ⟨sources, hsources, targets, htargets, rfl⟩ := h
  rw [append_eq_nil_iff, ← allowedEnds_spec hsources, ← allowedEnds_spec htargets]
  simp

def field (v : Json) (name : String) : Json := (v.member? name).getD .null

/-- An edge has a known node at one end, of a kind that a rule admits there. -/
def EndFits (kind? : Key → Option Json) (rule e : Json) (ending : String) : Prop :=
  (field e ending).truthy = true ∧ ∃ k kind, (field e ending).key? = some k ∧
    kind? k = some (.str kind) ∧ AdmitsKind rule ending kind

/-- An edge has a kind with a rule, and fits it at both ends. -/
def EdgeFits (rule? : String → Option Json) (kind? : Key → Option Json) (e : Json) : Prop :=
  ∃ name rule, field e "edge" = .str name ∧ name ≠ "" ∧ rule? name = some rule ∧
    EndFits kind? rule e "from" ∧ EndFits kind? rule e "to"

/-- Once the rule is found, an edge fits just if the rule admits the kinds of both ends. -/
lemma edgeFits_iff {rule? : String → Option Json} {kind? : Key → Option Json} {name : String}
    {j k : Key} (hname : field e "edge" = .str name) (hne : name ≠ "")
    (hrule : rule? name = some rule)
    (hfrom : (field e "from").truthy = true) (hto : (field e "to").truthy = true)
    (hj : (field e "from").key? = some j) (hk : (field e "to").key? = some k) :
    EdgeFits rule? kind? e ↔
      (∃ kind, kind? j = some (.str kind) ∧ AdmitsKind rule "from" kind) ∧
        ∃ kind, kind? k = some (.str kind) ∧ AdmitsKind rule "to" kind := by
  have hends : EdgeFits rule? kind? e ↔ EndFits kind? rule e "from" ∧
      EndFits kind? rule e "to" := by
    refine ⟨?_, fun hends ↦ ⟨name, rule, hname, hne, hrule, hends⟩⟩
    rintro ⟨name', rule', hname', -, hrule', hends⟩
    cases hname.symm.trans hname'
    cases hrule.symm.trans hrule'
    exact hends
  rw [hends]
  simp [EndFits, hfrom, hto, hj, hk]

lemma edge?_of_key {k : Key} (hk : v.key? = some k) :
    s.edge? v = .ok (v.asStr?.bind s.edgeTypes.get?) := by
  rw [edge?, key_eq_ok.2 hk]
  cases k with
  | str name =>
    rw [key?_eq_str.1 hk]
    rfl
  | _ =>
    cases v with
    | str => cases hk
    | _ => rfl

/-- If the kinds of its ends are texts, nothing is wrong with an edge just if it fits. -/
lemma checkEdge_spec (hkinds : ∀ k v, (field e "from").key? = some k ∨
    (field e "to").key? = some k →
      types.get? k = some v → ∃ kind, v = .str kind) (h : checkEdge s types e = .ok errors) :
    errors = [] ↔ EdgeFits s.edgeTypes.get? types.get? e := by
  simp only [checkEdge, bind_eq_ok, get_eq_ok] at h
  obtain ⟨_, ⟨-, rfl⟩, _, ⟨-, rfl⟩, _, ⟨-, rfl⟩, h⟩ := h
  change (if !((field e "edge").truthy && (field e "from").truthy && (field e "to").truthy) then _
    else _) = _ at h
  split at h
  next hfalse =>
    cases h
    refine iff_of_false (cons_ne_nil _ _) ?_
    rintro ⟨name, rule, hname, hne, -, ⟨hfrom, -⟩, hto, -⟩
    rw [hname, truthy_str.2 hne, hfrom, hto] at hfalse
    cases hfalse
  next htrue =>
    rw [Bool.not_eq_true', Bool.not_eq_false, Bool.and_eq_true, Bool.and_eq_true] at htrue
    obtain ⟨⟨hedge, hfrom⟩, hto⟩ := htrue
    obtain ⟨rule?, hrule, h⟩ := bind_eq_ok.1 h
    obtain ⟨_, hkey, -⟩ := bind_eq_ok.1 hrule
    replace hrule := Except.ok.inj (hrule.symm.trans (edge?_of_key (key_eq_ok.1 hkey)))
    change rule? = (field e "edge").asStr?.bind _ at hrule
    cases rule? with
    | none =>
      cases h
      refine iff_of_false (cons_ne_nil _ _) ?_
      rintro ⟨name, rule, hname, -, hget, -⟩
      rw [hname] at hrule
      exact absurd (hrule.trans hget) (by simp)
    | some rule =>
      obtain ⟨name, hname, hget⟩ := Option.bind_eq_some_iff.1 hrule.symm
      simp only [bind_eq_ok, key_eq_ok] at h
      obtain ⟨j, hj, k, hk, h⟩ := h
      have hname : field e "edge" = .str name := by
        cases hedge : field e "edge" <;> simp_all [Json.asStr?]
      rw [edgeFits_iff hname (truthy_str.1 (hname ▸ hedge)) hget hfrom hto hj hk]
      cases hA : types.get? j with
      | none =>
        rw [hA] at h
        cases h
        simp
      | some A =>
        cases hB : types.get? k with
        | none =>
          rw [hA, hB] at h
          cases h
          simp
        | some B =>
          rw [hA, hB] at h
          obtain ⟨A, rfl⟩ := hkinds j A (.inl hj) hA
          obtain ⟨B, rfl⟩ := hkinds k B (.inr hk) hB
          rw [checkTriple_spec h]
          simp

lemma checkEdges_spec (hkinds : ∀ k v, types.get? k = some v → ∃ kind, v = .str kind)
    (h : checkEdges s types edges = .ok errors) :
    errors = [] ↔ ∀ e ∈ edges, EdgeFits s.edgeTypes.get? types.get? e := by
  refine foldlM_invariant (fun met (errors : List Json) ↦
    errors = [] ↔ ∀ e ∈ met, EdgeFits s.edgeTypes.get? types.get? e) ?_ (by simp) h
  intro met errors e _ hmet hstep
  simp only [bind_eq_ok, pure_eq_ok] at hstep
  obtain ⟨found, hfound, rfl⟩ := hstep
  rw [append_eq_nil_iff, hmet, checkEdge_spec (fun k v _ ↦ hkinds k v) hfound, forall_mem_append,
    forall_mem_singleton]

/-! ## Tickets -/

def TicketFits (t : Json) : Prop := ∀ name ∈ ticketFields, (t.member? name).isSome = true

lemma missing_of_object (m : List (String × Json)) :
    ticketFields.filterM (fun name ↦ do return !(← (Json.obj m).holds name)) =
      (.ok (ticketFields.filter fun name ↦ !Table.contains m name) : Except Fault _) :=
  filterM_of_forall fun _ _ ↦ rfl

lemma missing_eq_nil {m : List (String × Json)} :
    (ticketFields.filter fun name ↦ !Table.contains m name) = [] ↔ TicketFits (.obj m) := by
  simp [TicketFits, filter_eq_nil_iff, Table.contains, Option.isSome_iff_ne_none]

lemma checkTicket_spec {t : Json} (h : checkTicket t = .ok (errors, warnings)) :
    errors = [] ↔ TicketFits t := by
  simp only [checkTicket, bind_eq_ok] at h
  obtain ⟨missing, hmissing, h⟩ := h
  have hobject (hobject : t.IsObject) : missing = [] ↔ TicketFits t := by
    obtain ⟨m, rfl⟩ := hobject
    cases (missing_of_object m).symm.trans hmissing
    exact missing_eq_nil
  split at h
  next hne =>
    cases h
    refine iff_of_false (cons_ne_nil _ _) fun hfits ↦ ?_
    obtain ⟨v, hv⟩ := Option.isSome_iff_exists.1 (hfits "id" (by simp [ticketFields]))
    exact hne ((hobject (isObject_of_member? hv)).2 hfits)
  next hnil =>
    rw [not_not] at hnil
    simp only [bind_eq_ok, need_eq_ok] at h
    obtain ⟨confidence, hconfidence, h⟩ := h
    have herrors : errors = [] := by
      split at h
      · cases h
        rfl
      · simp only [bind_eq_ok, pure_eq_ok, Prod.mk.injEq] at h
        obtain ⟨-, -, herrors, -⟩ := h
        exact herrors.symm
    exact iff_of_true herrors ((hobject (isObject_of_member? hconfidence)).1 hnil)

lemma checkTickets_spec (h : checkTickets tickets = .ok (errors, warnings)) :
    errors = [] ↔ ∀ t ∈ tickets, TicketFits t := by
  refine foldlM_invariant (fun met (found : List Json × List Json) ↦
    found.1 = [] ↔ ∀ t ∈ met, TicketFits t) ?_ (by simp) h
  rintro met ⟨errors, warnings⟩ t ⟨errors', warnings'⟩ hmet hstep
  simp only [bind_eq_ok, pure_eq_ok, Prod.mk.injEq] at hstep
  obtain ⟨⟨found, _⟩, hfound, rfl, -⟩ := hstep
  rw [append_eq_nil_iff, hmet, checkTicket_spec hfound, forall_mem_append, forall_mem_singleton]

/-! ## Graphs -/

def ticketsOf (g : Json) : Except Fault (List Json) := do
  (← g.getD "ambiguities" (.arr [])).elements

/-- Every node, every edge and every ticket fits. -/
structure Conforms (kinds : List String) (rule? : String → Option Json)
    (nodes edges tickets : List Json) : Prop where
  node : ∀ n ∈ nodes, NodeFits kinds n
  edge : ∀ e ∈ edges, EdgeFits rule? (kindUnder nodes) e
  ticket : ∀ t ∈ tickets, TicketFits t

lemma check_spec {nodeSchema : Json} {file : String}
    (h : check nodeSchema edgeTypes file graph = .ok r) :
    ∃ nodes edges tickets, nodesOf graph = .ok nodes ∧ edgesOf graph = .ok edges ∧
      ticketsOf graph = .ok tickets ∧ (r.passes = true ↔
        Conforms (nodeSchema.members.map Prod.fst) edgeTypes.get? nodes edges tickets) := by
  simp only [check, bind_eq_ok, pure_eq_ok] at h
  obtain ⟨listed, hlisted, joined, hjoined, _, -, _, -, noted, hnoted, _, -, kinds,
    hkinds, nodes, hnodes,
    ⟨types, nodeErrors⟩, htypes, edges, hedges, edgeErrors, hwrong, tickets, htickets,
    ⟨ticketErrors, _⟩, hticketErrors, rfl⟩ := h
  obtain rfl := members_of_ok hkinds
  refine ⟨nodes, edges, tickets, bind_eq_ok.2 ⟨listed, hlisted, hnodes⟩,
    bind_eq_ok.2 ⟨joined, hjoined, hedges⟩, bind_eq_ok.2 ⟨noted, hnoted, htickets⟩, ?_⟩
  obtain ⟨hfits, hknown⟩ := checkNodes_spec htypes
  rw [Report.passes, List.isEmpty_iff, List.append_eq_nil_iff, List.append_eq_nil_iff, hfits,
    checkTickets_spec hticketErrors]
  have hedgesFit (hall : ∀ n ∈ nodes, NodeFits (nodeSchema.members.map Prod.fst) n) :
    edgeErrors = [] ↔
      ∀ e ∈ edges, EdgeFits edgeTypes.get? (kindUnder nodes) e := by
    have hkind : types.get? = kindUnder nodes := funext (hknown fun n hn ↦ (hall n hn).truthy)
    rw [← hkind]
    refine checkEdges_spec (fun k v hv ↦ ?_) hwrong
    rw [hkind] at hv
    obtain ⟨n, hn, heq⟩ := exists_of_lastUnder hv
    obtain ⟨-, kind, -, hkind, -⟩ := hall n hn
    exact ⟨kind, (congrArg Prod.snd heq).symm.trans hkind⟩
  constructor
  · rintro ⟨⟨hall, hnil⟩, htickets⟩
    exact ⟨hall, (hedgesFit hall).1 hnil, htickets⟩
  · rintro ⟨hall, hedges, htickets⟩
    exact ⟨⟨hall, (hedgesFit hall).2 hedges⟩, htickets⟩

lemma status_eq_pass : r.document.member? "status" = some (.str "pass") ↔ r.passes = true := by
  cases h : r.passes <;> simp [Report.document, get?_cons, h]

lemma status_eq_fail : r.document.member? "status" = some (.str "fail") ↔ ¬r.passes = true := by
  cases h : r.passes <;> simp [Report.document, get?_cons, h]

/-! ## Coming to an end -/

/-- Whether a value can serve as a key, if it counts as true at all. -/
def keyable (v : Json) : Bool := !v.truthy || v.key?.isSome

lemma exists_key (h : keyable v = true) (htruthy : v.truthy = true) : ∃ k, v.key? = some k := by
  rw [keyable, htruthy] at h
  exact Option.isSome_iff_exists.1 h

/-- What is looked up while a graph is checked can serve as a key. -/
structure Legible (nodes edges tickets : List Json) : Prop where
  node : ∀ n ∈ nodes, n.IsObject ∧ keyable (identifier n) ∧ keyable (kindOf n)
  edge : ∀ e ∈ edges, e.IsObject ∧ ∀ name ∈ ["edge", "from", "to"], keyable (field e name)
  ticket : ∀ t ∈ tickets, t.IsObject

/-- A rule lists, at both ends, values that can serve as keys. -/
def Ruled (rule : Json) : Prop :=
  ∀ ending ∈ ["from", "to"], ∃ v ends, rule.getD ending (.arr []) = .ok v ∧ v.elements = .ok ends ∧
    ∀ w ∈ ends, ∃ k, w.key? = some k

lemma ruled_of_lists {sources targets : List Json}
    (hsources : rule.member? "from" = some (.arr sources))
    (htargets : rule.member? "to" = some (.arr targets))
    (hkeys : ∀ v ∈ sources ++ targets, v.key?.isSome) : Ruled rule := by
  have hkey (v : Json) (hv : v ∈ sources ++ targets) := Option.isSome_iff_exists.1 (hkeys v hv)
  intro ending hending
  rcases mem_pair.1 hending with rfl | rfl
  · exact ⟨_, sources, getD_of_member? hsources _, rfl, fun v hv ↦ hkey v (mem_append_left _ hv)⟩
  · exact ⟨_, targets, getD_of_member? htargets _, rfl, fun v hv ↦ hkey v (mem_append_right _ hv)⟩

lemma checkNode_succeeds (s : CoreSchema) (types : Types) (hobject : n.IsObject)
    (hid : keyable (identifier n)) (hkind : keyable (kindOf n)) :
    ∃ found, checkNode s types n = .ok found := by
  simp only [checkNode, get_eq_ok.2 ⟨hobject, rfl⟩, bind, Except.bind]
  change ∃ found, (if !(identifier n).truthy then _ else if !(kindOf n).truthy then _ else _) = _
  split
  · exact ⟨_, rfl⟩
  next htruthy =>
    split
    · exact ⟨_, rfl⟩
    next htruthy' =>
      obtain ⟨k, hk⟩ := exists_key hid (by simpa using htruthy)
      obtain ⟨k', hk'⟩ := exists_key hkind (by simpa using htruthy')
      change ∃ found, ((identifier n).key >>= fun k ↦ s.knowsNode (kindOf n) >>= fun known ↦
        if known then _ else _) = .ok found
      rw [key_eq_ok.2 hk, knowsNode_of_key hk']
      cases (kindOf n).asStr?.any s.nodeTypes.contains <;> exact ⟨_, rfl⟩

lemma allowedEnds_succeeds (h : Ruled rule) (ending : String) (hending : ending ∈ ["from", "to"]) :
    ∃ kinds, allowedEnds rule ending = .ok kinds := by
  obtain ⟨v, ends, hv, hends, hkeys⟩ := h ending hending
  have hrun : ∃ seen, ends.foldlM (fun (seen : Table Key Json) e ↦ do
      let k ← e.key
      return if seen.contains k then seen else seen ++ [(k, e)]) [] = (.ok seen :
        Except Fault _) := by
    refine foldlM_succeeds (fun seen w hw ↦ ?_) []
    obtain ⟨k, hk⟩ := hkeys w hw
    exact ⟨_, bind_eq_ok.2 ⟨k, key_eq_ok.2 hk, rfl⟩⟩
  obtain ⟨seen, hseen⟩ := hrun
  simp only [allowedEnds, bind_eq_ok]
  exact ⟨_, v, hv, ends, hends, seen, hseen, rfl⟩

lemma checkTriple_succeeds (h : Ruled rule) (edge source target : Json) :
    ∃ errors, checkTriple rule edge source target = .ok errors := by
  obtain ⟨sources, hsources⟩ := allowedEnds_succeeds h "from" (by simp)
  obtain ⟨targets, htargets⟩ := allowedEnds_succeeds h "to" (by simp)
  simp only [checkTriple, bind_eq_ok]
  exact ⟨_, sources, hsources, targets, htargets, rfl⟩

lemma checkEdge_succeeds (hrules : ∀ e ∈ s.edgeTypes, Ruled e.2) (types : Types)
    (hobject : e.IsObject) (hkeys : ∀ name ∈ ["edge", "from", "to"], keyable (field e name)) :
    ∃ errors, checkEdge s types e = .ok errors := by
  simp only [checkEdge, get_eq_ok.2 ⟨hobject, rfl⟩, bind, Except.bind]
  split
  · exact ⟨_, rfl⟩
  next htrue =>
    rw [Bool.not_eq_true', Bool.not_eq_false, Bool.and_eq_true, Bool.and_eq_true] at htrue
    obtain ⟨k, hk⟩ := exists_key (hkeys "edge" (by simp)) htrue.1.1
    obtain ⟨source, hsource⟩ := exists_key (hkeys "from" (by simp)) htrue.1.2
    obtain ⟨target, htarget⟩ := exists_key (hkeys "to" (by simp)) htrue.2
    simp only [field] at hk hsource htarget
    simp only [edge?_of_key hk, key_eq_ok.2 hsource, key_eq_ok.2 htarget]
    cases hrule : ((e.member? "edge").getD .null).asStr?.bind s.edgeTypes.get? with
    | none => exact ⟨_, rfl⟩
    | some rule =>
      obtain ⟨name, -, hget⟩ := Option.bind_eq_some_iff.1 hrule
      cases types.get? source with
      | none => exact ⟨_, rfl⟩
      | some A =>
        cases types.get? target with
        | none => exact ⟨_, rfl⟩
        | some B => exact checkTriple_succeeds (hrules _ (mem_of_get? hget)) _ A B

lemma checkTicket_succeeds {t : Json} (h : t.IsObject) : ∃ found, checkTicket t = .ok found := by
  obtain ⟨m, rfl⟩ := h
  rw [checkTicket, missing_of_object]
  simp only [bind, Except.bind]
  split
  · exact ⟨_, rfl⟩
  next hnil =>
    have hfits := missing_eq_nil.1 (not_not.1 hnil)
    obtain ⟨confidence, hconfidence⟩ := Option.isSome_iff_exists.1 (hfits "confidence" (by decide))
    obtain ⟨id, hid⟩ := Option.isSome_iff_exists.1 (hfits "id" (by decide))
    simp only [need_eq_ok.2 hconfidence, need_eq_ok.2 hid]
    split <;> exact ⟨_, rfl⟩

lemma checkNodes_succeeds (s : CoreSchema)
    (h : ∀ n ∈ nodes, n.IsObject ∧ keyable (identifier n) ∧ keyable (kindOf n)) :
    ∃ found, checkNodes s nodes = .ok found := by
  refine foldlM_succeeds (fun found n hn ↦ ?_) _
  obtain ⟨hobject, hid, hkind⟩ := h n hn
  obtain ⟨more, hmore⟩ := checkNode_succeeds s found.1 hobject hid hkind
  exact ⟨_, bind_eq_ok.2 ⟨more, hmore, rfl⟩⟩

lemma checkEdges_succeeds (hrules : ∀ e ∈ s.edgeTypes, Ruled e.2) (types : Types)
    (h : ∀ e ∈ edges, e.IsObject ∧ ∀ name ∈ ["edge", "from", "to"], keyable (field e name)) :
    ∃ errors, checkEdges s types edges = .ok errors := by
  refine foldlM_succeeds (fun errors e he ↦ ?_) _
  obtain ⟨more, hmore⟩ := checkEdge_succeeds hrules types (h e he).1 (h e he).2
  exact ⟨_, bind_eq_ok.2 ⟨more, hmore, rfl⟩⟩

lemma checkTickets_succeeds (h : ∀ t ∈ tickets, t.IsObject) :
    ∃ found, checkTickets tickets = .ok found := by
  refine foldlM_succeeds (fun found t ht ↦ ?_) _
  obtain ⟨more, hmore⟩ := checkTicket_succeeds (h t ht)
  exact ⟨_, bind_eq_ok.2 ⟨more, hmore, rfl⟩⟩

lemma check_succeeds (kinds : List (String × Json)) (hrules : ∀ e ∈ edgeTypes, Ruled e.2)
    (file : String) (hnodes : nodesOf graph = .ok nodes) (hedges : edgesOf graph = .ok edges)
    (htickets : ticketsOf graph = .ok tickets) (h : Legible nodes edges tickets) :
    ∃ r, check (.obj kinds) edgeTypes file graph = .ok r := by
  obtain ⟨listed, hlisted, hnodes⟩ := bind_eq_ok.1 hnodes
  obtain ⟨joined, hjoined, hedges⟩ := bind_eq_ok.1 hedges
  obtain ⟨noted, hnoted, htickets⟩ := bind_eq_ok.1 htickets
  obtain ⟨⟨types, nodeErrors⟩, hfound⟩ := checkNodes_succeeds ⟨kinds.map Prod.fst, edgeTypes⟩ h.node
  obtain ⟨edgeErrors, hwrong⟩ :=
    checkEdges_succeeds (s := ⟨kinds.map Prod.fst, edgeTypes⟩) hrules types h.edge
  obtain ⟨⟨ticketErrors, warnings⟩, hnotes⟩ := checkTickets_succeeds h.ticket
  simp only [check, bind_eq_ok, pure_eq_ok]
  exact ⟨_, listed, hlisted, joined, hjoined, _, size_of_elements hnodes, _,
    size_of_elements hedges, noted, hnoted, _, size_of_elements htickets, kinds, rfl, nodes,
    hnodes, _, hfound, edges, hedges, edgeErrors, hwrong, tickets, htickets, _, hnotes, rfl⟩

/-! ## Schemas -/

/-- The rule for a kind of edge, in the last category but the commentary that has one. -/
def definition? (categories : List (String × Json)) (name : String) : Option Json :=
  (categories.filter (·.1 ≠ "_meta")).reverse.findSome? fun c ↦ c.2.member? name

lemma definition?_concat (categories : List (String × Json)) (c : String × Json) (name : String) :
    definition? (categories ++ [c]) name =
      if c.1 = "_meta" then definition? categories name
      else (c.2.member? name).or (definition? categories name) := by
  rw [definition?, filter_append, reverse_append, findSome?_append]
  by_cases hmeta : c.1 = "_meta" <;> simp [hmeta, definition?]

/-- Every rule by which edges are checked stands in a category other than the commentary. -/
lemma exists_category {categories : List (String × Json)} {types : Table String Json}
    (h : edgeTypesOf (.obj categories) = .ok types) :
    ∀ e ∈ types, ∃ c ∈ categories, c.1 ≠ "_meta" ∧ e ∈ c.2.members := by
  cases h
  refine foldlRecOn (motive := fun types : Table String Json ↦
    ∀ e ∈ types, ∃ c ∈ categories, c.1 ≠ "_meta" ∧ e ∈ c.2.members) categories _ (by simp) ?_
  intro types ih c hc e (he : _ ∈ if c.1 == "_meta" then _ else _)
  split at he
  next => exact ih e he
  next hmeta =>
    rcases mem_merge he with he | he
    · exact ih e he
    · exact ⟨c, hc, mt beq_iff_eq.2 hmeta, he⟩

/-- The rules by which edges are checked are those of all categories but the commentary. -/
lemma edgeTypesOf_spec {categories : List (String × Json)}
    (hdistinct : ∀ c ∈ categories, (keys c.2.members).Nodup) :
    ∃ types, edgeTypesOf (.obj categories) = .ok types ∧ types.get? = definition? categories := by
  induction categories using List.reverseRecOn with
  | nil => exact ⟨[], rfl, rfl⟩
  | append_singleton categories c ih =>
    obtain ⟨types, htypes, hget⟩ := ih fun c hc ↦ hdistinct c (mem_append_left _ hc)
    have hrun : edgeTypesOf (.obj (categories ++ [c])) =
        .ok (if c.1 == "_meta" then types else Table.merge types c.2.members) := by
      rw [← Except.ok.inj htypes]
      exact congrArg Except.ok foldl_append
    refine ⟨_, hrun, funext fun name ↦ ?_⟩
    rw [definition?_concat, ← hget]
    by_cases hmeta : c.1 = "_meta"
    · rw [if_pos hmeta, if_pos (beq_iff_eq.2 hmeta)]
    · rw [if_neg hmeta, if_neg (mt beq_iff_eq.1 hmeta), get?_merge (hdistinct c (by simp))]
      rfl

/-- A graph that is checked has the status of a pass just if it conforms: every node is known by
something and of a kind of the schema, every edge fits the last rule for it at both ends, and no
ticket lacks a field. If rules can be read and what is looked up can serve as a key, the check comes
to an end. -/
theorem passes_iff_conforms {categories : List (String × Json)}
    (hdistinct : ∀ c ∈ categories, (Table.keys c.2.members).Nodup) (kinds : List (String × Json))
    (file : String) {graph : Json} {nodes edges tickets : List Json}
    (hnodes : nodesOf graph = .ok nodes)
    (hedges : edgesOf graph = .ok edges) (htickets : ticketsOf graph = .ok tickets) :
    ∃ types, CoreSchema.edgeTypesOf (.obj categories) = .ok types ∧
      (∀ r, check (.obj kinds) types file graph = .ok r →
        (r.document.member? "status" = some (.str "pass") ↔
          Conforms (kinds.map Prod.fst) (definition? categories) nodes edges tickets)) ∧
      ((∀ c ∈ categories, c.1 ≠ "_meta" → ∀ e ∈ c.2.members, Ruled e.2) →
        Legible nodes edges tickets → ∃ r, check (.obj kinds) types file graph = .ok r) := by
  obtain ⟨types, htypes, hget⟩ := edgeTypesOf_spec hdistinct
  refine ⟨types, htypes, fun r hr ↦ ?_, fun hruled hlegible ↦ ?_⟩
  · obtain ⟨nodes', edges', tickets', hnodes', hedges', htickets', hpasses⟩ := check_spec hr
    obtain rfl := Except.ok.inj (hnodes.symm.trans hnodes')
    obtain rfl := Except.ok.inj (hedges.symm.trans hedges')
    obtain rfl := Except.ok.inj (htickets.symm.trans htickets')
    rw [status_eq_pass, hpasses, hget]
    rfl
  · refine check_succeeds kinds (fun e he ↦ ?_) file hnodes hedges htickets hlegible
    obtain ⟨c, hc, hmeta, he⟩ := exists_category htypes e he
    exact hruled c hc hmeta e he

def callRule : Json :=
  .obj [("from", .arr [.str "Class", .str "File"]), ("to", .arr [.str "Function", .str "Function"])]

/-- Two categories with a rule for calls, of which the second counts. -/
def callCategories : List (String × Json) :=
  [("_meta", .obj [("reads", .obj [])]),
    ("direct", .obj [("calls", .obj [("from", .arr []), ("to", .arr [])])]),
    ("symbolic", .obj [("calls", callRule)])]

def callKinds : List (String × Json) := [("Function", .null), ("Class", .null)]

/-- A node of which only the name and the node type tell anything, and one that is there twice. -/
def callNodes : List Json :=
  [.obj [("id", .str ""), ("name", .bool true), ("type", .null), ("node_type", .str "Class")],
    .obj [("id", .str "f"), ("type", .str "Class")],
    .obj [("id", .str "f"), ("type", .str "Function"), ("node_type", .str "Class")]]

def callEdges : List Json :=
  [.obj [("edge", .str "calls"), ("from", .int 1), ("to", .str "f")]]

def callGraph : Json := .obj [("nodes", .arr callNodes), ("edges", .arr callEdges)]

theorem passes_iff_conforms_calls : ∃ r, Legible callNodes callEdges [] ∧
    CoreSchema.edgeTypesOf (.obj callCategories) = .ok [("calls", callRule)] ∧
      check (.obj callKinds) [("calls", callRule)] "fragment.json" callGraph = .ok r ∧
      r.document.member? "status" = some (.str "pass") ∧
      Conforms (callKinds.map Prod.fst) (definition? callCategories) callNodes callEdges [] := by
  have hdistinct : ∀ c ∈ callCategories, (Table.keys c.2.members).Nodup := by decide
  have hruled : ∀ c ∈ callCategories, c.1 ≠ "_meta" → ∀ e ∈ c.2.members, Ruled e.2 := by
    intro c hc hmeta e he
    simp only [callCategories, List.mem_cons, List.not_mem_nil, or_false] at hc
    rcases hc with rfl | rfl | rfl
    · exact absurd rfl hmeta
    · obtain rfl := List.mem_singleton.1 he
      exact ruled_of_lists rfl rfl (by decide)
    · obtain rfl := List.mem_singleton.1 he
      exact ruled_of_lists rfl rfl (by decide)
  have hlegible : Legible callNodes callEdges [] :=
    ⟨by simp [callNodes, Json.IsObject]; decide, by simp [callEdges, Json.IsObject]; decide,
      by simp⟩
  have hnodes : nodesOf callGraph = .ok callNodes := rfl
  obtain ⟨types, htypes, hiff, hends⟩ :=
    passes_iff_conforms hdistinct callKinds "fragment.json" hnodes rfl rfl
  obtain rfl : types = [("calls", callRule)] := Except.ok.inj (htypes.symm.trans rfl)
  obtain ⟨r, hr⟩ := hends hruled hlegible
  have hpass : r.document.member? "status" = some (.str "pass") := by
    obtain rfl := Except.ok.inj (hr.symm.trans rfl)
    cbv
  exact ⟨r, hlegible, htypes, hr, hpass, (hiff r hr).1 hpass⟩

end Conformance

end CodeAtlas.Graph
