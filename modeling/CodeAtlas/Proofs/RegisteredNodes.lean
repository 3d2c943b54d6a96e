import CodeAtlas.Proofs.ProvenNames
import CodeAtlas.Proofs.SurveyedGraph

/-!
# The registry and the list of nodes

An edge between registered nodes is added as it is, or there is one ticket in its place, which tells
that the schema refuses it or that the mapping has no name for it. A setup whose documents are in
order never fails to do so. Each registered node is written to the registry under its id and put at
the end of the list of nodes. So the registry holds the last node of each id, in the order in which
the ids came up. A variable is left out if its id is taken, but a file, a class or a function is
not; the two agree as long as none of these is registered under an id that is taken.
-/

namespace CodeAtlas.Build

open Fallible Stepwise Table

/-- A setup that has an answer to all that is asked of it. -/
structure Setup.Ready (setup : Setup) : Prop where
  kinds : ∀ definition, ∃ type, setup.schema.nodeType definition = .ok type
  edges : ∀ relation, ∃ edge, setup.schema.edgeType relation = .ok edge
  allows : ∀ relation edge source target, setup.schema.edgeType relation = .ok edge →
    edge.truthy = true → ∃ allowed, setup.schema.rules.allows edge source target = .ok allowed
  resolver : ∃ resolver, resolverOf setup.instructions = .ok resolver

lemma edgeType_scriptSetup (relation : String) :
    ∃ edge, scriptSetup.schema.edgeType relation = .ok edge ∧
      (edge.truthy = true → ∃ name, edge = .str name) := by
  obtain ⟨names, hnames⟩ : ∃ names, scriptSetup.schema.edgeNames = .obj names := ⟨_, rfl⟩
  have htexts : names.all (fun e ↦ e.2.asStr?.isSome) = true := by
    cases hnames
    decide
  rw [Schema.edgeType, hnames]
  change ∃ edge, (if contains names relation = true then
      .ok ((get? names relation).getD .null) else .ok .null : Except Fault Json) = .ok edge ∧ _
  cases hget : get? names relation with
  | none =>
    rw [contains, hget]
    exact ⟨.null, rfl, fun h ↦ by cases h⟩
  | some edge =>
    rw [contains, hget]
    refine ⟨edge, rfl, fun _ ↦ ?_⟩
    have htext := List.all_eq_true.1 htexts (relation, edge) (mem_of_get? hget)
    cases edge with
    | str name => exact ⟨name, rfl⟩
    | _ => cases htext

lemma ready_scriptSetup : scriptSetup.Ready := by
  refine ⟨fun definition ↦ ?_, fun relation ↦ ?_,
    fun relation edge source target hedge htruthy ↦ ?_, ⟨_, rfl⟩⟩
  · exact ⟨_, rfl⟩
  · obtain ⟨edge, hedge, -⟩ := edgeType_scriptSetup relation
    exact ⟨edge, hedge⟩
  · obtain ⟨edge', hedge', htext⟩ := edgeType_scriptSetup relation
    cases hedge.symm.trans hedge'
    obtain ⟨name, rfl⟩ := htext htruthy
    exact ⟨_, allows_eq isTextual_coreRules name source target⟩

namespace Survey

def ticketed (s : Survey) (t : Ticket) (resolver : Json) : Survey :=
  { s with draft := s.draft.issue.addTicket t resolver }

def linked (s : Survey) (e : Json) : Survey := { s with draft := s.draft.addEdge e }

/-- A survey with a ticket of some kind about a scope. -/
def Ticketed (kind expression scope : String) (s s' : Survey) : Prop :=
  ∃ t resolver, t.kind = kind ∧ t.expression = .str expression ∧ t.scope = .str scope ∧
    s' = s.ticketed t resolver

lemma ends_emitTicket (setup : Setup) (kind expression reason scope confidence : String)
    (s : Survey) : Ends setup.Ready (emitTicket setup kind expression reason scope confidence) s
      fun _ s' ↦ Ticketed kind expression scope s s' := by
  refine .modify_bind (.lift_bind (fun h ↦ h.resolver) fun resolver _ ↦ ?_)
  exact .of_modify ⟨_, resolver, rfl, rfl, rfl, rfl⟩

/-- What comes of an edge between registered nodes. -/
inductive Emitted (setup : Setup) (relation source target : String)
    (details : List (String × Json)) (s : Survey) : Survey → Prop
  | added {edge : Json} (hedge : setup.schema.edgeType relation = .ok edge)
      (htruthy : edge.truthy = true) :
      Emitted setup relation source target details s (s.linked (.obj (merge
        [("edge", edge), ("from", .str source), ("to", .str target)] details)))
  | refused {edge : Json} {s' : Survey} (hedge : setup.schema.edgeType relation = .ok edge)
      (h : Ticketed "schema_violation" (relation ++ " -> " ++ edge.display) source s s') :
      Emitted setup relation source target details s s'
  | unmapped {s' : Survey} (h : Ticketed "mapping_violation" relation source s s') :
      Emitted setup relation source target details s s'

lemma ends_emitEdge (setup : Setup) (relation : String) {source target : String}
    (details : List (String × Json)) {ids : List String} {s : Survey}
    (hs : Registered ids s.registry) (hsource : source ∈ s.registry.keys)
    (htarget : target ∈ s.registry.keys) :
    Ends setup.Ready (emitEdge setup relation source target details) s
      fun _ s' ↦ Emitted setup relation source target details s s' := by
  obtain ⟨a, ha, hasource⟩ := exists_node? hs hsource
  obtain ⟨b, hb, hatarget⟩ := exists_node? hs htarget
  obtain ⟨A, hA⟩ := hasource.type
  obtain ⟨B, hB⟩ := hatarget.type
  refine .get_bind ?_
  rw [ha, hb]
  refine .lift_bind (fun h ↦ h.edges relation) fun edge hedge ↦ ?_
  split
  next htruthy =>
    refine .lift_bind (fun _ ↦ ⟨A, Json.need_eq_ok.2 hA⟩) fun sourceType _ ↦
      .lift_bind (fun _ ↦ ⟨B, Json.need_eq_ok.2 hB⟩) fun targetType _ ↦
      .lift_bind (fun h ↦ h.allows relation edge _ _ hedge htruthy) fun allowed _ ↦ ?_
    split
    · exact .of_modify (.added hedge htruthy)
    · exact (ends_emitTicket setup _ _ _ _ _ s).imp id fun _ _ _ h ↦ .refused hedge h
  next => exact (ends_emitTicket setup _ _ _ _ _ s).imp id fun _ _ _ h ↦ .unmapped h

/-- Two surveys with the same edges and tickets. -/
structure SameRecords (s s' : Survey) : Prop where
  edges : s'.draft.edges = s.draft.edges
  ambiguities : s'.draft.ambiguities = s.draft.ambiguities

lemma fails_emitTicket (setup : Setup) (kind expression reason scope confidence : String)
    (s : Survey) :
    Fails (emitTicket setup kind expression reason scope confidence) s (SameRecords s) := by
  refine .modify_bind (.lift_bind ⟨rfl, rfl⟩ fun resolver _ ↦ ?_)
  exact .of_modify _

lemma fails_emitEdge (setup : Setup) (relation source target : String)
    (details : List (String × Json)) (s : Survey) :
    Fails (emitEdge setup relation source target details) s (SameRecords s) := by
  have hsame : SameRecords s s := ⟨rfl, rfl⟩
  refine .get_bind ?_
  split
  · refine .lift_bind hsame fun edge _ ↦ ?_
    split
    · refine .lift_bind hsame fun _ _ ↦ .lift_bind hsame fun _ _ ↦
        .lift_bind hsame fun allowed _ ↦ ?_
      split
      · exact .of_modify _
      · exact fails_emitTicket setup _ _ _ _ _ s
    · exact fails_emitTicket setup _ _ _ _ _ s
  · exact .pure _

end Survey

end CodeAtlas.Build

namespace CodeAtlas.Table

variable {κ β : Type} [DecidableEq κ]
variable {entries : Table κ β}

lemma mem_keys_ofList {key : κ} : key ∈ (ofList entries).keys ↔ key ∈ entries.keys := by
  refine (mem_keys_merge : _ ↔ key ∈ keys [] ∨ key ∈ entries.keys).trans ?_
  simp [keys]

lemma ofList_of_nodup (h : entries.keys.Nodup) : ofList entries = entries := by
  induction entries using List.reverseRecOn with
  | nil => rfl
  | append_singleton entries e ih =>
    rw [keys_append, List.nodup_append] at h
    have hnew : e.1 ∉ keys entries := fun hmem ↦ h.2.2 _ hmem _ (by simp [keys]) rfl
    rw [ofList_concat, ih h.1, put_of_notMem hnew]

end CodeAtlas.Table

namespace CodeAtlas.Build

open List Fallible Stepwise Survey

variable {id : String} {sources : List Source} {issued : Nat}

/-- The text that a node has under a key. -/
def told (key : String) (n : Json) : String :=
  match n.member? key with
  | some (.str text) => text
  | _ => ""

/-- A registry that holds the last one of the nodes with each id, and the ids of all nodes in order.
-/
structure Filed (ids : List String) (registry : Table String Json) (nodes : List Json) : Prop where
  agrees : registry = Table.ofList (nodes.map fun n ↦ (told "id" n, n))
  tells : Registered [] registry
  ids : nodes.map (told "id") = ids

variable {ids : List String} {registry : Table String Json} {nodes : List Json}

lemma Filed.put (h : Filed ids registry nodes) {node : Json}
    (hnode : Definitions.Introduces id node) :
    Filed (ids ++ [id]) (registry.put id node) (nodes ++ [node]) := by
  have hid : told "id" node = id := by rw [told, hnode.id]
  refine ⟨?_, (h.tells.put id hnode.toTells).mono (nil_subset _), ?_⟩
  · rw [map_append, map_singleton, Table.ofList_concat, ← h.agrees, hid]
  · rw [map_append, map_singleton, h.ids, hid]

lemma Filed.mem_keys_iff (h : Filed ids registry nodes) : id ∈ registry.keys ↔ id ∈ ids := by
  rw [h.agrees, Table.mem_keys_ofList, Table.keys, map_map, ← h.ids]
  rfl

namespace Survey

/-- An edge between any ids is added, refused or passed over, if the setup has an answer. -/
lemma exists_emitEdge {setup : Setup} (hsetup : setup.Ready) (relation source target : String)
    {s : Survey} (hs : Registered [] s.registry) :
    ∃ s', emitEdge setup relation source target [] s = .ok () s' := by
  have hends : Ends setup.Ready (emitEdge setup relation source target []) s fun _ _ ↦ True := by
    cases ha : s.node? source with
    | none =>
      refine .get_bind ?_
      rw [ha]
      exact .pure trivial
    | some a =>
      cases hb : s.node? target with
      | none =>
        refine .get_bind ?_
        rw [ha, hb]
        exact .pure trivial
      | some b =>
        exact (ends_emitEdge setup relation [] hs (mem_keys_of_node? (ha ▸ rfl))
          (mem_keys_of_node? (hb ▸ rfl))).imp id fun _ _ _ _ ↦ trivial
  obtain ⟨_, s', hrun⟩ := hends.2 hsetup
  exact ⟨s', hrun⟩

end Survey

namespace Definitions

/-- The ids of the nodes after a step that comes to its end. -/
def Step.idsAfter (ids : List String) : Step → List String
  | .register id _ => ids ++ [id]
  | .once _ _ id _ => if id ∈ ids then ids else ids ++ [id]
  | _ => ids

variable {steps : List Step} {step : Step}

def Step.isFail : Step → Bool
  | .fail _ => true
  | _ => false

def Safe (steps : List Step) : Prop := ∀ step ∈ steps, step.isFail = false

@[simp]
lemma safe_nil : Safe [] := by simp [Safe]

@[simp]
lemma safe_cons {rest : List Step} : Safe (step :: rest) ↔ step.isFail = false ∧ Safe rest :=
  forall_mem_cons

@[simp]
lemma safe_append {front rest : List Step} : Safe (front ++ rest) ↔ Safe front ∧ Safe rest :=
  forall_mem_append

/-- The steps of the first pass over a source, up to the first that fails. -/
def doneSteps (setup : Setup) (source : Source) : List Step :=
  match source.tree with
  | .ok (text, n) => (fileSteps setup source text n).takeWhile (!·.isFail)
  | .error _ => []

variable {setup : Setup} {path : String} {s : Survey}

lemma arises_file (setup : Setup) (source : Source) (text : String) (n : Script.Node) :
    ∀ step ∈ fileSteps setup source text n, step.Arises setup source.name fun _ ↦ True :=
  arises_fileSteps (fun _ _ _ ↦ trivial) trivial text n

lemma exists_doneSteps (hsetup : setup.Ready) {source : Source} {text : String} {n : Script.Node}
    (htree : source.tree = .ok (text, n)) :
    ∃ node steps, fileSteps setup source text n = .register (fileId source.name) node :: steps ∧
      doneSteps setup source = .register (fileId source.name) node ::
      steps.takeWhile (!·.isFail) := by
  obtain ⟨type, htype⟩ := hsetup.kinds "Module"
  obtain ⟨node, steps, hsteps⟩ : ∃ node steps,
      fileSteps setup source text n = .register (fileId source.name) node :: steps := by
    rw [fileSteps, htype]
    exact ⟨_, _, rfl⟩
  refine ⟨node, steps, hsteps, ?_⟩
  rw [doneSteps, htree]
  exact congrArg (takeWhile _) hsteps

/-- A step that does not fail comes to its end, if the setup has an answer. -/
lemma Step.exists_run (hsetup : setup.Ready) (harises : step.Arises setup path fun _ ↦ True)
    (hstep : step.isFail = false) (hs : s.Within (Filed ids)) :
    ∃ s', step.run setup s = .ok () s' ∧ s'.Within (Filed (step.idsAfter ids)) := by
  cases step with
  | fail f => cases hstep
  | register id node => exact ⟨_, rfl, Filed.put hs (harises.registers rfl).2.introduces⟩
  | link relation source target =>
    obtain ⟨s', hrun⟩ := exists_emitEdge hsetup relation source target hs.tells
    exact ⟨s', hrun, (keeps_within_emitEdge _ _ _ _).of_ok hs hrun⟩
  | note kind expression reason scope confidence =>
    obtain ⟨_, s', hrun⟩ :=
      (ends_emitTicket setup kind expression reason scope confidence s).2 hsetup
    exact ⟨s', hrun, (keepsRecords_within.ticket _ _ _ _ _).of_ok hs hrun⟩
  | once relation around id node =>
    have htaken : (s.node? id).isNone = true ↔ id ∉ ids := by
      rw [← Filed.mem_keys_iff hs, ← isSome_node?_iff hs.tells]
      cases s.node? id <;> simp
    show ∃ s', (if (s.node? id).isNone then (modify fun s ↦ s.register id node) >>= fun _ ↦
      emitEdge setup relation around id [] else pure () : Surveying Unit) s = .ok () s' ∧ _
    rw [idsAfter]
    by_cases hid : id ∈ ids
    · rw [if_neg fun h ↦ htaken.1 h hid, if_pos hid]
      exact ⟨s, rfl, hs⟩
    · rw [if_pos (htaken.2 hid), if_neg hid]
      have hfiled : (s.register id node).Within (Filed (ids ++ [id])) :=
        Filed.put hs (harises.registers rfl).2.introduces
      obtain ⟨s', hrun⟩ := exists_emitEdge hsetup relation around id hfiled.tells
      exact ⟨s', hrun, (keeps_within_emitEdge _ _ _ _).of_ok hfiled hrun⟩

/-- Steps are done up to the first that fails, and come to their end if there is none. -/
lemma exists_runAll (hsetup : setup.Ready)
    (harises : ∀ step ∈ steps, step.Arises setup path fun _ ↦ True) (hs : s.Within (Filed ids)) :
    ∃ u, u.Within (Filed ((steps.takeWhile (!·.isFail)).foldl Step.idsAfter ids)) ∧
      (Safe steps ∧ runAll setup steps s = .ok () u ∨
        ¬Safe steps ∧ ∃ f, runAll setup steps s = .error f u) := by
  induction steps generalizing s ids with
  | nil => exact ⟨s, hs, .inl ⟨safe_nil, rfl⟩⟩
  | cons step rest ih =>
    obtain ⟨hfirst, hrest⟩ := forall_mem_cons.1 harises
    cases hstep : step.isFail with
    | true =>
      cases step with
      | fail f => exact ⟨s, hs, .inr ⟨by simp [Step.isFail], f, rfl⟩⟩
      | _ => cases hstep
    | false =>
      obtain ⟨s', hrun, hs'⟩ := Step.exists_run hsetup hfirst hstep hs
      obtain ⟨u, hu, h⟩ := ih hrest hs'
      have hbind : runAll setup (step :: rest) s = runAll setup rest s' := by
        simp only [runAll_cons, bind, EStateM.bind, hrun]
      rw [takeWhile_cons_of_pos (by simp [hstep]), hbind, safe_cons]
      exact ⟨u, hu, by simpa [hstep] using h⟩

lemma filed_addDefinitions (hsetup : setup.Ready) (hs : s.Within (Filed ids)) (source : Source) :
    (s.addDefinitions setup source).Within
    (Filed ((doneSteps setup source).foldl Step.idsAfter ids)) := by
  rw [addDefinitions, doneSteps]
  cases source.tree with
  | error f => exact hs
  | ok parsed =>
    obtain ⟨u, hu, h⟩ := exists_runAll hsetup (arises_file setup source parsed.1 parsed.2) hs
    have hafter : after (visitFile setup source parsed.1 parsed.2) s = u := by
      rw [visitFile]
      rcases h with ⟨-, hrun⟩ | ⟨-, f, hrun⟩
      · exact after_of_ok hrun
      · exact after_of_error hrun
    exact walk_of_after (P := Within _) (fun _ _ h ↦ h) (hafter ▸ hu) _ _

lemma filed_firstPass (hsetup : setup.Ready) (issued : Nat) (sources : List Source) :
    (firstPass setup issued sources).Within
      (Filed ((sources.flatMap (doneSteps setup)).foldl Step.idsAfter [])) := by
  have hwalk (ids : List String) (s : Survey) (hs : s.Within (Filed ids)) :
      (sources.foldl (addDefinitions setup) s).Within
        (Filed ((sources.flatMap (doneSteps setup)).foldl Step.idsAfter ids)) := by
    induction sources generalizing s ids with
    | nil => exact hs
    | cons source rest ih =>
      rw [flatMap_cons, foldl_append]
      exact ih _ _ (filed_addDefinitions hsetup hs source)
  exact hwalk [] _ ⟨rfl, ⟨by simp, by simp⟩, rfl⟩

def Step.id? (step : Step) : Option String := step.registers?.map Prod.fst

lemma mem_foldl_idsAfter : id ∈ steps.foldl Step.idsAfter [] ↔
    ∃ step ∈ steps, step.id? = some id := by
  induction steps using reverseRecOn with
  | nil => simp
  | append_singleton steps step ih =>
    simp only [foldl_append, foldl_cons, foldl_nil, mem_append, mem_singleton,
      or_and_right, exists_or, exists_eq_left, ← ih]
    cases step with
    | register other node => simp [Step.idsAfter, Step.id?, Step.registers?, eq_comm]
    | once relation around other node =>
      rw [Step.idsAfter]
      split
      next hmem =>
        refine ⟨.inl, fun h ↦ h.elim (fun hmem ↦ hmem) fun heq ↦ ?_⟩
        exact Option.some.inj heq ▸ hmem
      next => simp [Step.id?, Step.registers?, eq_comm]
    | _ => simp [Step.idsAfter, Step.id?, Step.registers?]

lemma mem_keys_firstPass (hsetup : setup.Ready) :
    id ∈ (firstPass setup issued sources).registry.keys ↔
      ∃ source ∈ sources, ∃ step ∈ doneSteps setup source, step.id? = some id := by
  rw [Filed.mem_keys_iff (filed_firstPass hsetup issued sources), mem_foldl_idsAfter]
  grind

/-- The later of two steps does not write over what the earlier one registers. A variable never
does. -/
def Step.Spares (first second : Step) :
    Prop := ∀ id node, second = .register id node → first.id? ≠ some id

lemma nodup_foldl_idsAfter : (steps.foldl Step.idsAfter []).Nodup ↔ steps.Pairwise Step.Spares := by
  induction steps using reverseRecOn with
  | nil => simp
  | append_singleton steps step ih =>
    have hlast : (∀ first ∈ steps, ∀ second ∈ [step], first.Spares second) ↔
        ∀ id node, step = .register id node → id ∉ steps.foldl Step.idsAfter [] := by
      simp only [forall_mem_singleton, mem_foldl_idsAfter, Step.Spares]
      grind
    rw [pairwise_append, hlast, ← ih, foldl_append, foldl_cons, foldl_nil]
    cases step with
    | register id node => grind [Step.idsAfter, nodup_append]
    | once relation around id node =>
      rw [Step.idsAfter]
      split
      next => simp
      next hnew => grind [nodup_append]
    | _ => simp [Step.idsAfter]

end Definitions

/-- The registry of a survey holds the last node of each id. The ids of the nodes are distinct just
if no file, class or function is registered under an id that is taken, and then the nodes are what
the registry holds. -/
theorem registry_agrees_iff (issued : Nat) (sources : List Source) :
    let s := surveySources scriptSetup issued sources
    let ids := s.draft.nodes.map (told "id")
    s.registry = Table.ofList (s.draft.nodes.map fun n ↦ (told "id" n, n)) ∧
    (ids.Nodup ↔ (sources.flatMap (Definitions.doneSteps scriptSetup)).Pairwise
      Definitions.Step.Spares) ∧
    (ids.Nodup → s.registry.values = s.draft.nodes) := by
  intro s ids
  have hfiled : s.Within (Filed _) :=
    References.surveySources_of_records keepsRecords_within
    (Definitions.filed_firstPass ready_scriptSetup issued sources)
  refine ⟨hfiled.agrees, ?_, fun hnodup ↦ ?_⟩
  · rw [← Definitions.nodup_foldl_idsAfter, ← hfiled.ids]
  · have hkeys : Table.keys (s.draft.nodes.map fun n ↦ (told "id" n, n)) = ids := map_map
    rw [hfiled.agrees, Table.ofList_of_nodup (hkeys ▸ hnodup), Table.values, map_map]
    exact map_id _

def twiceSource : Source :=
  ⟨"a.py", "/p/a.py", .ok "def sell():\n    pass\n\n\ndef sell():\n    pass\n"⟩

/-- There are two nodes for the function, of which the registry holds one. -/
theorem function_registered_twice :
    let s := surveySources scriptSetup 0 [twiceSource]
    s.draft.nodes.map (told "id") = ["a.py", "a.py::sell", "a.py::sell"] ∧
    s.registry.keys = ["a.py", "a.py::sell"] ∧ s.registry.values ≠ s.draft.nodes := by
  decide +kernel

end CodeAtlas.Build
