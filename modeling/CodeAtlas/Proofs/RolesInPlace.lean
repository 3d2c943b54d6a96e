import CodeAtlas.Proofs.IncrementalRoles

/-!
# Giving roles in place

Roles may be written into the nodes while these nodes are being looked up for later rules. That
makes no difference: whatever a rule looks up, it asks for the structure of a node and never for its
roles. So a run that looks at the nodes as they are at each moment gives what a run gives that looks
at the nodes as they were.
-/

namespace CodeAtlas.Graph

open Fallible Table Roles

variable {m n : Json}

/-- Nodes that differ from those of a topology, which all have ids, in their roles only. -/
structure Topology.Mirrors (t : Topology) (now : Table Key Json) : Prop where
  structures : Enrichment.SameStructures now t.nodes
  ids : ∀ k n, t.nodes.get? k = some n → ∃ id, n.member? "id" = some id

namespace Topology.Mirrors

open Enrichment

variable {t : Topology} {now : Table Key Json}

lemma replace {met rest : Table Key Json} {k : Key}
    (h : t.Mirrors (met ++ (k, n) :: rest)) (hm : structureOf m = structureOf n) :
    t.Mirrors (met ++ (k, m) :: rest) := by
  refine ⟨fun k' ↦ ?_, h.ids⟩
  rw [← h.structures k', get?_append, get?_append, get?_cons, get?_cons]
  cases Table.get? met k' with
  | some _ => rfl
  | none =>
    by_cases hk : k = k'
    · simp [hk, hm]
    · simp [hk]

variable (h : t.Mirrors now)
include h

/-- What is done with a node that is looked up does not depend on its roles if it does not for nodes
of the same structure. -/
lemma node?_bind {β : Type} {f : Option Json → Except Fault β}
    (hf : ∀ n m, structureOf n = structureOf m → f (some n) = f (some m)) (v : Json) :
    ((t.withNodes now).node? v >>= f) = (t.node? v >>= f) := by
  rw [node?, node?, bind_assoc, bind_assoc]
  refine bind_congr fun k ↦ ?_
  show f ((now.get? k).filter Json.truthy) = f ((t.nodes.get? k).filter Json.truthy)
  have hk := h.structures k
  cases hn : t.nodes.get? k with
  | none =>
    rw [hn, Option.map_none, Option.map_eq_none_iff] at hk
    rw [hk]
  | some n =>
    rw [hn, Option.map_some, Option.map_eq_some_iff] at hk
    obtain ⟨m, hm, hstructure⟩ := hk
    obtain ⟨id, hid⟩ := h.ids k n hn
    have hid' : m.member? "id" = some id := by
      rw [member?_of_structureOf_eq hstructure (by decide), hid]
    rw [hm, Option.filter_some_pos (Json.truthy_of_member? hid),
      Option.filter_some_pos (Json.truthy_of_member? hid')]
    exact hf m n hstructure

lemma someEnd_eq {type : String} {test : Json → Except Fault Bool}
    (htest : ∀ n m, structureOf n = structureOf m → test n = test m) (ends : List (Json × Json)) :
    someEnd (t.withNodes now) type test ends = someEnd t type test ends := by
  induction ends with
  | nil => rfl
  | cons e rest ih =>
    obtain ⟨kind, other⟩ := e
    rw [someEnd, someEnd]
    simp only [ih]
    split
    · refine h.node?_bind (fun n m hnm ↦ ?_) other
      show (test n >>= _) = (test m >>= _)
      rw [htest n m hnm]
    · rfl

lemma definingFile?_bind {β : Type} {f : Option Json → Except Fault β}
    (hf : ∀ n m, structureOf n = structureOf m → f (some n) = f (some m))
    (ends : List (Json × Json)) :
    (definingFile? (t.withNodes now) ends >>= f) = (definingFile? t ends >>= f) := by
  induction ends with
  | nil => rfl
  | cons e rest ih =>
    obtain ⟨kind, source⟩ := e
    rw [definingFile?, definingFile?]
    split
    · exact h.node?_bind hf source
    · exact ih

lemma importsPackage_eq (rules id : Json) :
    importsPackage (t.withNodes now) rules id = importsPackage t rules id := by
  refine bind_congr fun wanted ↦ bind_congr fun ends ↦ ?_
  rw [h.definingFile?_bind fun n m hnm ↦ ?_]
  · refine bind_congr fun file? ↦ ?_
    cases file? with
    | none => rfl
    | some file =>
      refine bind_congr fun id ↦ bind_congr fun ends ↦ ?_
      exact h.someEnd_eq (fun n m hnm ↦ isPackage_congr (get_congr_of_structureOf hnm (by decide))
        wanted) ends
  · show (n.get "id" >>= _) = (m.get "id" >>= _)
    rw [get_congr_of_structureOf hnm (by decide)]

lemma ruleHolds_eq (rules n : Json) (rule : String) :
    ruleHolds (t.withNodes now) rules n rule = ruleHolds t rules n rule := by
  have hnamed (rule : String) (n m : Json) (hnm : structureOf n = structureOf m) :=
    namedIn_congr (get_congr_of_structureOf hnm (by decide)) rules rule
  refine bind_congr fun id ↦ ?_
  split
  · exact bind_congr fun ends ↦ h.someEnd_eq (hnamed _) ends
  · exact bind_congr fun ends ↦ h.someEnd_eq (fun n m hnm ↦ standsIn_congr
      (getD_congr_of_structureOf hnm (by decide)) (getD_congr_of_structureOf hnm (by decide)) rules)
      ends
  · exact bind_congr fun _ ↦ bind_congr fun ends ↦ h.someEnd_eq (hnamed _) ends
  · exact h.importsPackage_eq rules id
  · exact bind_congr fun ends ↦ h.someEnd_eq (hnamed _) ends
  · rfl

lemma applyTo_eq (role kind detection n : Json) :
    applyTo (t.withNodes now) role kind detection n = applyTo t role kind detection n := by
  have hrecognises : recognises (t.withNodes now) detection n = recognises t detection n := by
    rw [recognises, recognises, allHold_congr fun name _ ↦ ⟨rfl, h.ruleHolds_eq detection n name⟩]
  rw [applyTo, applyTo, hrecognises]

lemma entrywise {f : Json → Except Fault Json} {done : Table Key Json}
    (hdone : Entrywise f now done) (hf : ∀ n m, f n = .ok m → structureOf m = structureOf n) :
    t.Mirrors done := by
  refine ⟨fun k ↦ ?_, h.ids⟩
  rw [← h.structures k]
  cases hn : now.get? k with
  | none =>
    rw [get?_eq_none_iff, ← hdone.keys_eq] at hn
    rw [get?_eq_none_iff.2 hn]
  | some n =>
    obtain ⟨m, hm, hget⟩ := hdone.get? hn
    rw [hget, Option.map_some, Option.map_some, hf n m hm]

end Topology.Mirrors

namespace Enrichment

variable {s : Table Key Json × Nat} {t : Topology}

/-- Tries a rule on the node under a key, with all nodes as they are by now, and writes the node
back. -/
def applyAt (t : Topology) (role kind detection : Json) (state : Table Key Json × Nat) (k : Key) :
    Except Fault (Table Key Json × Nat) := do
  match state.1.get? k with
  | some n =>
    match ← applyTo (t.withNodes state.1) role kind detection n with
    | some m => return (state.1.put k m, state.2 + 1)
    | none => return state
  | none => return state

/-- One rule on the next node, after those that it has been applied to. -/
def applyNext (t : Topology) (role kind detection : Json) (state : Table Key Json × Nat)
    (e : Key × Json) : Except Fault (Table Key Json × Nat) := do
  match ← applyTo t role kind detection e.2 with
  | some m => return (state.1 ++ [(e.1, m)], state.2 + 1)
  | none => return (state.1 ++ [e], state.2)

lemma applyRule_eq (t : Topology) (s : Table Key Json × Nat) (rule : Json) :
    applyRule t s rule = (do
      let role ← rule.need "semantic_role"
      let kind ← rule.need "core_node"
      let detection ← rule.getD "detection_rules" (.obj [])
      s.1.foldlM (applyNext t role kind detection) ([], s.2)) := rfl

/-- One rule on all nodes, in place. -/
def applyRuleInPlace (t : Topology) (state : Table Key Json × Nat) (rule : Json) :
    Except Fault (Table Key Json × Nat) := do
  let role ← rule.need "semantic_role"
  let kind ← rule.need "core_node"
  let detection ← rule.getD "detection_rules" (.obj [])
  state.1.keys.foldlM (applyAt t role kind detection) state

/-- All rules of a framework, in place. -/
def applyFrameworkInPlace (t : Topology) (state : Table Key Json × Nat) (r : Reading) :
    Except Fault (Table Key Json × Nat) := do
  (← rulesOf r).foldlM (applyRuleInPlace t) state

lemma structureOf_applyTo {role kind detection : Json}
    (h : applyTo t role kind detection n = .ok (some m)) : structureOf m = structureOf n := by
  obtain ⟨-, ⟨hnone, -⟩ | ⟨-, -, -, rs, -, hsome⟩⟩ := applyTo_cases h
  · cases hnone
  · rw [Option.some.inj hsome, structureOf_setMember]

/-- A rule does the same in place: each node is looked at once, and meanwhile the others keep their
structure. -/
lemma applyRuleInPlace_eq (hdistinct : s.1.keys.Nodup) (hmirrors : t.Mirrors s.1) (rule : Json) :
    applyRuleInPlace t s rule = applyRule t s rule := by
  -- The induction is on the nodes still to come; those before them have had their turn.
  have hgeneral (role kind detection : Json) : ∀ (rest met : Table Key Json) (count : Nat),
      (met ++ rest).keys.Nodup → t.Mirrors (met ++ rest) →
      rest.keys.foldlM (applyAt t role kind detection) (met ++ rest, count) =
        rest.foldlM (applyNext t role kind detection) (met, count) := by
    intro rest
    induction rest with
    | nil =>
      intro met count _ _
      rw [List.append_nil]
      rfl
    | cons e rest ih =>
      intro met count hdistinct hmirrors
      obtain ⟨k, n⟩ := e
      have hnew : k ∉ met.keys := by
        intro hmem
        rw [keys_append, List.nodup_append] at hdistinct
        exact hdistinct.2.2 _ hmem _ List.mem_cons_self rfl
      have hget : Table.get? (met ++ (k, n) :: rest) k = some n := by
        rw [get?_append, get?_eq_none_iff.2 hnew, get?_cons, if_pos rfl]
        rfl
      have hkeys (m : Json) : Table.keys (met ++ (k, m) :: rest) =
          Table.keys (met ++ (k, n) :: rest) := by
        rw [keys_append, keys_append]
        rfl
      rw [Table.keys, List.map_cons, List.foldlM_cons, List.foldlM_cons, applyAt, applyNext, hget]
      simp only [hmirrors.applyTo_eq, bind_assoc]
      cases hn : applyTo t role kind detection n with
      | error e => rfl
      | ok o =>
        cases o with
        | none =>
          have hrest := ih (met ++ [(k, n)]) count
          rw [← List.append_cons] at hrest
          exact hrest hdistinct hmirrors
        | some m =>
          have hrest := ih (met ++ [(k, m)]) (count + 1)
          rw [← List.append_cons, hkeys] at hrest
          show (Table.keys rest).foldlM _ (Table.put (met ++ (k, n) :: rest) k m, count + 1) = _
          rw [put_append hnew, Table.put, if_pos rfl]
          exact hrest hdistinct (hmirrors.replace (structureOf_applyTo hn))
  refine bind_congr fun role ↦ bind_congr fun kind ↦ bind_congr fun detection ↦ ?_
  exact hgeneral role kind detection s.1 [] s.2 hdistinct hmirrors

lemma foldlM_applyRuleInPlace (hdistinct : s.1.keys.Nodup) (hmirrors : t.Mirrors s.1)
    (rules : List Json) : rules.foldlM (applyRuleInPlace t) s = rules.foldlM (applyRule t) s := by
  refine foldlM_congr (fun s ↦ s.1.keys.Nodup ∧ t.Mirrors s.1) ?_ ?_ ⟨hdistinct, hmirrors⟩ rules
  · intro s rule hs
    exact applyRuleInPlace_eq hs.1 hs.2 rule
  · intro s rule s' hs hrun
    have hentries := entrywise_applyRule hrun
    exact ⟨hentries.keys_eq ▸ hs.1, hs.2.entrywise hentries fun n m hm ↦ structureOf_applyRuleTo hm⟩

end Enrichment

end CodeAtlas.Graph
