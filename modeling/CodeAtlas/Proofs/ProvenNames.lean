import CodeAtlas.Proofs.ReferenceTasks

/-!
# Names that stand for something registered

The first pass registers definitions and never takes one back. The second pass registers nothing.
All along its walk, whatever the mapping and the schema are, each scope is that of a registered
definition and each name is bound to a parameter or to a registered one.
-/

namespace CodeAtlas.Build

open Fallible Stepwise Survey Table

variable {id name : String} {s survey : Survey} {step : Surveying Unit}
variable {ids : List String} {registry : Table String Json}

/-- All registered nodes tell their names and types, and there is one for each of some ids. -/
structure Registered (ids : List String) (registry : Table String Json) : Prop where
  tells : ∀ id n, (id, n) ∈ registry → Tells n
  there : ids ⊆ registry.keys

lemma Registered.mono {ids' : List String}
    (h : Registered ids registry) (hids : ids' ⊆ ids) : Registered ids' registry :=
  ⟨h.tells, List.Subset.trans hids h.there⟩

lemma Registered.put (h : Registered ids registry) (id : String) {n : Json} (hn : Tells n) :
    Registered (id :: ids) (registry.put id n) := by
  refine ⟨fun other m hm ↦ ?_, fun other hother ↦ ?_⟩
  · rcases mem_put hm with heq | hm
    · cases heq
      exact hn
    · exact h.tells other m hm
  · rw [mem_keys_put]
    exact (List.mem_cons.1 hother).imp_right fun hmem ↦ h.there hmem

namespace Survey

lemma exists_node? (h : Registered ids s.registry) (hid : id ∈ s.registry.keys) :
    ∃ n, s.node? id = some n ∧ Tells n := by
  obtain ⟨n, hn⟩ := exists_of_mem_keys hid
  have htells := h.tells id n (mem_of_get? hn)
  obtain ⟨name, hname⟩ := htells.name
  exact ⟨n, Option.filter_eq_some_iff.2 ⟨hn, Json.truthy_of_member? hname⟩, htells⟩

lemma isSome_node?_iff (h : Registered ids s.registry) :
    (s.node? id).isSome = true ↔ id ∈ s.registry.keys := by
  refine ⟨mem_keys_of_node?, fun hid ↦ ?_⟩
  obtain ⟨n, hn, -⟩ := exists_node? h hid
  rw [hn]
  rfl

end Survey

namespace Definitions

open Script (Node)

variable {ids : List String}

abbrev Has (ids : List String) : Survey → Prop := Survey.Over (Registered ids)

lemma keeps_has_step {setup : Setup} {path : String} {step : Step}
    (h : step.Arises setup path fun _ ↦ True) : Keeps (Has ids) (step.run setup) := by
  refine step.keeps_run (fun id node hnode s hs ↦ ?_) keepsRecords_within
  exact (Registered.put hs id (h.registers hnode).2.introduces.toTells).mono
    (List.subset_cons_self id ids)

end Definitions

lemma Survey.registry_addReferences (setup : Setup) (s : Survey) (source : Source) :
    (s.addReferences setup source).registry = s.registry :=
  References.addReferences_of_records (P := Over (· = s.registry)) keepsRecords_within rfl source

/-- The survey when the second pass has gone over the first ones of some sources. -/
def secondPass (setup : Setup) (issued : Nat) (sources done : List Source) : Survey :=
  done.foldl (Survey.addReferences setup) (firstPass setup issued sources)

lemma registry_secondPass (setup : Setup) (issued : Nat) (sources done : List Source) :
    (secondPass setup issued sources done).registry = (firstPass setup issued sources).registry :=
  List.foldlRecOn (motive :=
    fun s : Survey ↦ s.registry = (firstPass setup issued sources).registry)
    done _ rfl fun s hs source _ ↦ (s.registry_addReferences setup source).trans hs

namespace References

open Script (Node)

/-- A binding that stands for nothing unknown. -/
def Binding.Known (registry : Table String Json) : Binding → Prop
  | .symbol id => id ∈ registry.keys
  | .parameter => True

variable {b : Binding} {scope : Scope Binding}

/-- A scope of a registered definition, with no names for anything unknown. -/
structure Grounded (registry : Table String Json) (scope : Scope Binding) : Prop where
  id : scope.id ∈ registry.keys
  symbols : ∀ name b, (name, b) ∈ scope.symbols → b.Known registry

/-- A point of the walk of the second pass over a registry. -/
structure Proven (registry : Table String Json) (s : State) : Prop where
  unchanged : s.survey.registry = registry
  scopes : ∀ scope ∈ s.scopes, Grounded registry scope

variable {registry : Table String Json}

lemma Grounded.define (h : Grounded registry scope) (name : String) (hb : b.Known registry) :
    Grounded registry (scope.define name b) := by
  refine ⟨h.id, fun name' b' hmem ↦ ?_⟩
  rcases mem_put hmem with heq | hmem
  · cases heq
    exact hb
  · exact h.symbols name' b' hmem

lemma known_of_lookup {scopes : List (Scope Binding)}
    (h : ∀ scope ∈ scopes, Grounded registry scope)
    (hb : Scope.lookup scopes name = some b) : b.Known registry := by
  obtain ⟨scope, hscope, hget⟩ := List.exists_of_findSome?_eq_some hb
  exact (h scope hscope).symbols name b (mem_of_get? hget)

lemma memberOf?_eq_some {scope : String} {entry : String × Json} {m : String × String}
    (h : memberOf? scope entry = .ok (some m)) : m.2 = entry.1 := by
  rw [memberOf?] at h
  split at h
  · split at h
    · cases h
    · obtain ⟨name, -, h⟩ := bind_eq_ok.1 h
      split at h
      · cases h
        rfl
      · cases h
  · cases h

lemma grounded_scopeOf (hid : id ∈ survey.registry.keys) (h : scopeOf survey id = .ok scope) :
    Grounded survey.registry scope ∧ scope.id = id := by
  obtain ⟨members, hmembers, h⟩ := bind_eq_ok.1 h
  obtain rfl := pure_eq_ok.1 h
  refine List.foldlRecOn (motive := fun scope ↦ Grounded survey.registry scope ∧ scope.id = id)
    members _ ⟨⟨hid, by simp⟩, rfl⟩ fun scope hscope m hm ↦ ?_
  obtain ⟨entry, hentry, hm⟩ := (mem_filterMapM hmembers).1 hm
  refine ⟨hscope.1.define _ ?_, hscope.2⟩
  rw [memberOf?_eq_some hm]
  exact mem_keys_of_mem hentry

lemma known_of_member? (h : member? survey id name = some b) : b.Known survey.registry := by
  obtain ⟨n, hn, rfl⟩ := Option.map_eq_some_iff.1 h
  exact mem_keys_of_node? (hn ▸ rfl)

lemma known_of_receiverMember? {s : State} {value : Node}
    (h : receiverMember? s value name = .ok (some b)) : b.Known s.survey.registry := by
  rw [receiverMember?] at h
  split at h
  · obtain ⟨found, -, h⟩ := bind_eq_ok.1 h
    split at h
    · exact known_of_member? (pure_eq_ok.1 h)
    · cases h
  · cases h

lemma known_of_resolve {s : State} (hs : Proven registry s) {n : Node}
    (h : resolve s n = .ok (some b)) : b.Known registry := by
  have hregistry := hs.unchanged
  rw [resolve.eq_def] at h
  split at h
  · exact known_of_lookup hs.scopes (Except.ok.inj h)
  · obtain ⟨found, -, h⟩ := bind_eq_ok.1 h
    split at h
    · split at h
      next hmember =>
        cases pure_eq_ok.1 h
        exact hregistry ▸ known_of_member? hmember
      next => exact hregistry ▸ known_of_receiverMember? h
    · exact hregistry ▸ known_of_receiverMember? h
  · cases h

lemma keeps_proven_onSurvey (h : Keeps (Over (· = registry)) step) :
    Keeps (Proven registry) (onSurvey step) := by
  intro s hs
  rw [after, onSurvey]
  cases hstep : step s.survey with
  | ok _ survey => exact ⟨h.of_ok hs.unchanged hstep, hs.scopes⟩
  | error _ survey => exact ⟨h.of_error hs.unchanged hstep, hs.scopes⟩

lemma keeps_proven_define (name : String) (hb : b.Known registry) :
    Keeps (Proven registry) (define name b) := by
  refine .of_modify fun s hs ↦ ?_
  split
  next => exact hs
  next scope rest hscopes =>
    have hall := hs.scopes
    rw [hscopes, List.forall_mem_cons] at hall
    exact ⟨hs.unchanged, List.forall_mem_cons.2 ⟨hall.1.define name hb, hall.2⟩⟩

lemma keeps_proven_enter (hid : id ∈ registry.keys) : Keeps (Proven registry) (enter id) := by
  refine .get_bind fun s hs ↦ after_lift_bind hs fun scope hscope ↦ ?_
  have hregistry := hs.unchanged
  subst hregistry
  exact ⟨rfl, List.forall_mem_cons.2 ⟨(grounded_scopeOf hid hscope).1, hs.scopes⟩⟩

lemma keeps_proven_leave : Keeps (Proven registry) leave :=
  .of_modify fun _ hs ↦
  ⟨hs.unchanged, fun scope hscope ↦ hs.scopes scope (List.mem_of_mem_tail hscope)⟩

/-- A task that gives names to known definitions only, and enters no other scopes than theirs. -/
def Task.IsGrounded (registry : Table String Json) : Task → Prop
  | .named _ b => b.Known registry
  | .enter id => id ∈ registry.keys
  | _ => True

lemma Task.Part.isGrounded {s : State} {t u : Task} (hpart : Part s t u) (hs : Proven registry s) :
    u.IsGrounded registry := by
  cases hpart with
  | enter hid => exact hs.unchanged ▸ mem_keys_of_node? hid
  | named _ hid => exact hs.unchanged ▸ mem_keys_of_node? hid
  | _ => trivial

lemma keeps_proven_run (setup : Setup) (path : String) {t : Task} (ht : t.IsGrounded registry) :
    Keeps (Proven registry) (t.run setup path) := by
  refine Task.keeps_run (fun s t u hs _ hpart ↦ hpart.isGrounded hs) (fun t ht hstep ↦ ?_) t ht
  cases t with
  | link relation a b details => exact keeps_proven_onSurvey (keeps_within_emitEdge _ _ _ _)
  | note kind expression reason scope =>
    exact keeps_proven_onSurvey (keepsRecords_within.ticket _ _ _ _ _)
  | named name b => exact keeps_proven_define name ht
  | enter id => exact keeps_proven_enter ht
  | leave => exact keeps_proven_leave
  | _ => cases hstep

end References

end CodeAtlas.Build
