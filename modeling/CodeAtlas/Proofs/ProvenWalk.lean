import CodeAtlas.Proofs.CallCoverage

/-!
# Every point of the second pass

Each registered id is that of a node of the draft, and an edge is added only between registered ids.
A walk over a registered file starts in its scope. At every task that it comes to, each scope around
is that of a registered definition, and each name in it stands for a parameter or for a registered
one, whatever the mapping and the schema are. Consequently no edge is dropped for want of an end,
and each reference that is followed to its end leaves one record, an edge or a ticket. One that
fails leaves none. It does not fail where the documents of the setup have an answer, unless it has
to show a number that is too long to be written.
-/

namespace CodeAtlas.Build

open Fallible Stepwise Survey

variable {s : Survey}

/-- An edge that leads from a node of the draft to a node of the draft. -/
def Draft.Joins (d : Draft) (e : Json) : Prop :=
  ∃ source target, e.member? "from" = some (.str source) ∧ e.member? "to" = some (.str target) ∧
    d.HasId source ∧ d.HasId target

lemma Draft.Joins.addNode {d : Draft} {e : Json} (h : d.Joins e) (node : Json) :
    (d.addNode node).Joins e := by
  obtain ⟨source, target, hsource, htarget, hfrom, hto⟩ := h
  exact ⟨source, target, hsource, htarget, hfrom.addNode node, hto.addNode node⟩

namespace Survey

/-- Registered ids are those of nodes, and edges lead from nodes to nodes. -/
structure Joined (s : Survey) : Prop where
  ids : ∀ id ∈ s.registry.keys, s.draft.HasId id
  edges : ∀ e ∈ s.draft.edges, s.draft.Joins e

lemma Joined.register (h : s.Joined) {id : String} {node : Json}
    (hnode : Definitions.Introduces id node) : (s.register id node).Joined := by
  refine ⟨fun other hother ↦ ?_, fun e he ↦ (h.edges e he).addNode node⟩
  rcases Table.mem_keys_put.1 hother with rfl | hother
  · exact ⟨node, List.mem_append_right _ List.mem_cons_self, hnode.id⟩
  · exact (h.ids other hother).addNode node

lemma keepsRecords_joined (setup : Setup) : KeepsRecords setup Joined := by
  have hticket := @keeps_emitTicket_of setup Joined (fun _ hs ↦ ⟨hs.ids, hs.edges⟩)
    fun _ _ _ hs ↦ ⟨hs.ids, hs.edges⟩
  refine ⟨hticket, fun relation source target details hdetails ↦ ?_,
    fun _ _ hs ↦ ⟨hs.ids, hs.edges⟩⟩
  refine keeps_emitEdge_of hticket fun s edge hs hadmits ↦ ?_
  obtain ⟨ha, hb⟩ := hadmits
  refine ⟨hs.ids, List.forall_mem_append.2 ⟨hs.edges, List.forall_mem_singleton.2
    ⟨source, target, ?_, ?_, ?_, ?_⟩⟩⟩
  · exact member?_of_areDetails hdetails (by simp) _
  · exact member?_of_areDetails hdetails (by simp) _
  · exact hs.ids source (mem_keys_of_node? (ha ▸ rfl))
  · exact hs.ids target (mem_keys_of_node? (hb ▸ rfl))

end Survey

lemma joined_surveySources (setup : Setup) (issued : Nat) (sources : List Source) :
    (surveySources setup issued sources).Joined := by
  refine References.surveySources_of_records (keepsRecords_joined setup) ?_
  refine List.foldlRecOn sources _ ⟨by simp [Table.keys], by simp⟩ fun s hs source _ ↦ ?_
  refine Definitions.addDefinitions_of_steps (fun _ _ (_ : True) ↦ trivial)
    (keepsRecords_joined setup).log trivial hs fun _ _ step hstep ↦ ?_
  exact step.keeps_run (fun _ _ hnode _ hs ↦ hs.register (hstep.registers hnode).2.introduces)
    (keepsRecords_joined setup)

end CodeAtlas.Build

namespace CodeAtlas.Build.References

open Fallible Stepwise List Survey
open Script (Node Alias)

namespace Task

variable {ts : List Task} {s'' : State}
variable {setup : Setup} {path : String} {registry : Table String Json} {s s' : State} {t u : Task}

/-- The tasks that doing a task from a state comes to, each with the state in which it starts. -/
inductive Comes (setup : Setup) (path : String) : Task → State → Task → State → Prop
  | start (t : Task) (s : State) : Comes setup path t s t s
  | part {t u v : Task} {s s' s'' : State} {before rest : List Task}
      (hparts : t.parts path s = .ok (before ++ u :: rest))
      (hbefore : runAll setup path before s = .ok () s') (h : Comes setup path u s' v s'') :
      Comes setup path t s v s''

lemma Comes.sited {v : Task} (h : Comes setup path t s v s'') (ht : t.Sited registry s) :
    v.Sited registry s'' := by
  induction h with
  | start t s => exact ht
  | part hparts hbefore _ ih => exact ih (ht.of_parts hparts hbefore)

/-- A state with some edges and tickets more, as many as given. -/
def Adds (k : Nat) (s s' : State) : Prop :=
  ∃ edges tickets, s'.survey.draft.edges = s.survey.draft.edges ++ edges ∧
    s'.survey.draft.ambiguities = s.survey.draft.ambiguities ++ tickets ∧
    edges.length + tickets.length = k

lemma Adds.of_same (h : SameRecords s.survey s'.survey) : Adds 0 s s' :=
  ⟨[], [], by rw [h.edges, append_nil], by rw [h.ambiguities, append_nil], rfl⟩

lemma Adds.trans {j k : Nat} (h : Adds j s s') (h' : Adds k s' s'') : Adds (j + k) s s'' := by
  obtain ⟨edges, tickets, hedges, htickets, rfl⟩ := h
  obtain ⟨edges', tickets', hedges', htickets', rfl⟩ := h'
  refine ⟨edges ++ edges', tickets ++ tickets', ?_, ?_, ?_⟩
  · rw [hedges', hedges, append_assoc]
  · rw [htickets', htickets, append_assoc]
  · rw [length_append, length_append]
    omega

lemma adds_of_ticketed {kind expression scope : String}
    (h : Ticketed kind expression scope s.survey s'.survey) : Adds 1 s s' := by
  obtain ⟨ticket, resolver, -, -, -, hsurvey⟩ := h
  rw [Adds, hsurvey]
  exact ⟨[], [ticket.document _ resolver], (append_nil _).symm, rfl, rfl⟩

lemma adds_of_emitted {relation a b : String} {details : List (String × Json)}
    (h : Emitted setup relation a b details s.survey s'.survey) : Adds 1 s s' := by
  generalize hsurvey : s'.survey = survey at h
  cases h with
  | added hedge =>
    rw [Adds, hsurvey]
    exact ⟨[_], [], rfl, (append_nil _).symm, rfl⟩
  | refused _ h => exact adds_of_ticketed (hsurvey ▸ h)
  | unmapped h => exact adds_of_ticketed (hsurvey ▸ h)

/-- A step that adds the given number of records where it comes to its end, and fewer where it
fails; it comes to its end under some condition. -/
structure Records (fine : Prop) (k : Nat) (x : Tracing Unit) (s : State) : Prop where
  ends : Ends fine x s fun _ s' ↦ Adds k s s'
  fails : Fails x s fun s' ↦ ∃ i < k, Adds i s s'

section

variable {fine : Prop} {j k : Nat} {x : Tracing Unit} {f : Unit → Tracing Unit}

lemma Records.of_eq {y : Tracing Unit} (h : Records fine k y s) (heq : x s = y s) :
    Records fine k x s := by
  obtain ⟨hends, hfails⟩ := h
  refine ⟨⟨fun a s' hrun ↦ hends.1 a s' (heq ▸ hrun), fun hyes ↦ ?_⟩, fun e s' hrun ↦ ?_⟩
  · rw [heq]
    exact hends.2 hyes
  · exact hfails e s' (heq ▸ hrun)

lemma Records.imp {fine' : Prop} (h : Records fine k x s) (hfine : fine' → fine) :
    Records fine' k x s :=
  ⟨h.ends.imp hfine fun _ _ _ hadds ↦ hadds, h.fails⟩

lemma Records.pure : Records fine 0 (Pure.pure ()) s :=
  ⟨.pure (.of_same ⟨rfl, rfl⟩), .pure _⟩

lemma Records.bind (hx : Records fine j x s)
    (hf : ∀ s', x s = .ok () s' → Records fine k (f ()) s') : Records fine (j + k) (x >>= f) s := by
  refine ⟨.bind hx.ends fun _ s' hrun hadds ↦ ?_, .bind ?_ fun _ s' hrun ↦ ?_⟩
  · exact (hf s' hrun).ends.imp id fun _ _ _ h ↦ hadds.trans h
  · intro e s' hrun
    obtain ⟨i, hi, hadds⟩ := hx.fails e s' hrun
    exact ⟨i, by omega, hadds⟩
  · intro e s'' hrun'
    obtain ⟨i, hi, hadds⟩ := (hf s' hrun).fails e s'' hrun'
    exact ⟨j + i, by omega, (hx.ends.1 () s' hrun).trans hadds⟩

lemma Records.lift_bind {α : Type} {y : Except Fault α} {g : α → Tracing Unit} (hk : 0 < k)
    (hy : fine → ∃ a, y = .ok a) (hg : ∀ a, y = .ok a → Records fine k (g a) s) :
    Records fine k ((liftM y : Tracing α) >>= g) s :=
  ⟨.lift_bind hy fun a ha ↦ (hg a ha).ends,
    .lift_bind ⟨0, hk, .of_same ⟨rfl, rfl⟩⟩ fun a ha ↦ (hg a ha).fails⟩

lemma records_onSurvey {step : Surveying Unit} {Q : Survey → Prop}
    (hends : Ends fine step s.survey fun _ survey ↦ Q survey)
    (hadds : ∀ s', Q s'.survey → Adds 1 s s')
    (hfails : Fails step s.survey (SameRecords s.survey)) : Records fine 1 (onSurvey step) s := by
  refine ⟨(ends_onSurvey hends).imp id fun _ s' _ h ↦ hadds s' h.2, fun e s' hrun ↦ ?_⟩
  rw [onSurvey] at hrun
  split at hrun
  next => cases hrun
  next f survey hstep =>
    cases hrun
    exact ⟨0, Nat.one_pos, .of_same (hfails _ _ hstep)⟩

end

/-- How many records a task leaves; for a node, which may hold anything, this is left open. -/
def records? (path : String) (s : State) : Task → Option Nat
  | .decorator .. | .base .. | .call .. | .importFile _ | .imported .. => some 1
  | .link .. | .note .. => some 1
  | .importFrom source names level =>
    some (1 + if (importedFile? s.survey path source level).isSome then names.length else 0)
  | .named .. => some 0
  | .node .. | .target _ | .enter _ | .leave => none

/-- The documents of a setup have an answer, and what a task may have to show can be written. -/
def Answered (setup : Setup) (t : Task) : Prop :=
  setup.Ready ∧ ∀ n, t.shown? = some n → n.hasTooLong = false

/-- What a single reference falls into: one record, and perhaps a name for what it refers to. -/
inductive Single (s : State) : List Task → Prop
  | link (relation a b : String) (details : List (String × Json)) :
      Single s [.link relation a b details]
  | note (kind expression reason scope : String) : Single s [.note kind expression reason scope]
  | imports (a : Alias) (id : String) : Single s (imports s a id)

/-- A reference to one thing. -/
def isSingle : Task → Bool
  | .decorator .. | .base .. | .call .. | .importFile _ | .imported .. => true
  | _ => false

lemma single_resolved {n : Node} {link : String → Task} {kind reason scope : String}
    (hlink : ∀ id, Single s [link id]) (h : resolved s n link kind reason scope = .ok ts) :
    Single s ts := by
  rcases of_resolved h with ⟨id, -, rfl⟩ | ⟨text, rfl⟩
  · exact hlink id
  · exact .note kind text reason scope

section

variable {known : List String} (hregistry : Registered known registry)
include hregistry

lemma single_parts (h : t.Sited registry s) (ht : t.isSingle = true)
    (hparts : t.parts path s = .ok ts) : Single s ts := by
  cases t with
  | decorator owner n => exact single_resolved (fun _ ↦ .link _ _ _ _) hparts
  | base owner n => exact single_resolved (fun _ ↦ .link _ _ _ _) hparts
  | call line callee => exact single_resolved (fun _ ↦ .link _ _ _ _) hparts
  | importFile a =>
    rw [parts] at hparts
    split at hparts
    next id hfile =>
      -- A file that is found is registered, so it is never passed over.
      have hnode : (s.survey.node? id).isSome = true :=
        (isSome_node?_iff (h.proven.unchanged ▸ hregistry)).2 (mem_of_find?_eq_some hfile)
      rw [if_pos hnode] at hparts
      cases hparts
      exact .imports a id
    next =>
      cases hparts
      exact .note _ _ _ _
  | imported file a =>
    cases hparts
    split
    · exact .imports a _
    · exact .note _ _ _ _
  | _ => cases ht

lemma records_link {relation a b : String} (details : List (String × Json))
    (hs : Proven registry s) (ha : a ∈ registry.keys) (hb : b ∈ registry.keys) :
    Records setup.Ready 1 (run setup path (.link relation a b details)) s := by
  have hunchanged := hs.unchanged
  subst hunchanged
  exact records_onSurvey (ends_emitEdge setup relation details hregistry ha hb)
    (fun _ ↦ adds_of_emitted) (fails_emitEdge setup relation a b details s.survey)

omit hregistry in
lemma records_note (kind expression reason scope : String) :
    Records setup.Ready 1 (run setup path (.note kind expression reason scope)) s :=
  records_onSurvey (ends_emitTicket setup kind expression reason scope "unresolved" s.survey)
    (fun _ ↦ adds_of_ticketed) (fails_emitTicket setup _ _ _ _ _ s.survey)

omit hregistry in
lemma records_named {fine : Prop} (name : String) (b : Binding) :
    Records fine 0 (run setup path (.named name b)) s := by
  refine ⟨.of_modify (.of_same ?_), .of_modify _⟩
  split <;> exact ⟨rfl, rfl⟩

lemma records_single (hts : Single s ts) (hs : Proven registry s)
    (hknown : ∀ u ∈ ts, u.Known registry) : Records setup.Ready 1 (runAll setup path ts) s := by
  cases hts with
  | link relation a b details =>
    rw [runAll_singleton]
    obtain ⟨ha, hb⟩ := hknown _ mem_cons_self
    exact records_link hregistry details hs ha hb
  | note kind expression reason scope =>
    rw [runAll_singleton]
    exact records_note kind expression reason scope
  | imports a id =>
    obtain ⟨ha, hb⟩ := hknown _ mem_cons_self
    rw [imports, runAll_cons]
    refine Records.bind (records_link hregistry [] hs ha hb) (k := 0) fun s' _ ↦ ?_
    rw [runAll_singleton]
    exact records_named _ _

lemma records_of_isSingle (h : t.Sited registry s) (ht : t.isSingle = true) :
    Records (t.Answered setup) 1 (t.run setup path) s := by
  have hstep : t.isStep = false := by
    cases t with
    | link | note | named | enter | leave => cases ht
    | _ => rfl
  refine Records.of_eq ?_ (falls_run hstep s)
  have hnode (depth : Nat) (n : Node) (heq : t = .node depth n) : Build.Passable depth n := by
    subst heq
    cases ht
  refine .lift_bind Nat.one_pos (fun hfine ↦ exists_parts hregistry h.proven ⟨hnode, hfine.2⟩)
    fun ts hts ↦ ?_
  have hknown : ∀ u ∈ ts, u.Known registry := fun u hu ↦ (part_of_mem hts hu).known h
  exact (records_single hregistry (single_parts hregistry h ht hts) h.proven hknown).imp And.left

lemma records_importedAll (hs : Proven registry s) (hids : s.ids ≠ []) (file : String)
    (names : List Alias) :
    Records setup.Ready names.length (runAll setup path (names.map (.imported file))) s := by
  induction names generalizing s with
  | nil => exact .pure
  | cons a names ih =>
    have hsited : (Task.imported file a).Sited registry s := ⟨hs, hids, trivial⟩
    have hfirst : Records setup.Ready 1 (run setup path (.imported file a)) s :=
      (records_of_isSingle hregistry hsited rfl).imp fun hready ↦ ⟨hready, by simp [shown?]⟩
    rw [map_cons, runAll_cons, length_cons, Nat.add_comm]
    refine hfirst.bind fun s' hrun ↦ ih ?_ ?_
    · exact (keeps_proven_run setup path hsited.known.isGrounded).of_ok hs hrun
    · rw [State.ids, (isGrowing_run _ rfl s s' hrun).ids]
      exact hids

lemma records_importFrom (hs : Proven registry s) (hids : s.ids ≠ []) (source : Option String)
    (names : List Alias) (level : Nat) : Records setup.Ready
      (1 + if (importedFile? s.survey path source level).isSome then names.length else 0)
      (run setup path (.importFrom source names level)) s := by
  refine Records.of_eq ?_ (falls_importFrom source names level)
  rw [parts]
  cases hfile : importedFile? s.survey path source level with
  | none =>
    show Records setup.Ready 1 (runAll setup path [.note _ _ _ _]) s
    rw [runAll_singleton]
    exact records_note _ _ _ _
  | some file =>
    have hscope : scopeId s ∈ registry.keys := mem_keys_scopeId hs hids
    have hknown : file ∈ registry.keys := hs.unchanged ▸ mem_keys_of_importedFile? hfile
    refine Records.bind (records_link hregistry [] hs hscope hknown) fun s' hrun ↦ ?_
    refine records_importedAll hregistry ?_ ?_ file names
    · exact (keeps_proven_onSurvey (Survey.keeps_within_emitEdge _ _ _ _)).of_ok hs hrun
    · rw [State.ids, (isGrowing_run _ rfl s s' hrun).ids]
      exact hids

omit hregistry in
lemma run_call_of_tooLong (setup : Setup) (path : String) (line : Nat) {callee : Node}
    (hresolve : resolve s callee = .ok none) (hlong : callee.hasTooLong = true) :
    run setup path (.call line callee) s = .error Script.Constant.tooLong s := by
  have hfalls : Falls setup path (run setup path (.call line callee)) s
      (parts path s (.call line callee)) := falls_run rfl s
  have hparts : parts path s (.call line callee) = .error Script.Constant.tooLong := by
    rw [parts, resolved, hresolve, Node.display, hlong]
    rfl
  rw [hparts] at hfalls
  exact hfalls

lemma records_run (h : t.Sited registry s) {k : Nat} (hk : t.records? path s = some k) :
    Records (t.Answered setup) k (t.run setup path) s := by
  cases t with
  | decorator | base | call | importFile | imported =>
    cases hk
    exact records_of_isSingle hregistry h rfl
  | importFrom source names level =>
    cases hk
    exact (records_importFrom hregistry h.proven h.inside source names level).imp And.left
  | link relation a b details =>
    cases hk
    exact (records_link hregistry details h.proven h.known.1 h.known.2).imp And.left
  | note kind expression reason scope =>
    cases hk
    exact (records_note kind expression reason scope).imp And.left
  | named name b =>
    cases hk
    exact records_named name b
  | _ => cases hk

end

end Task

end CodeAtlas.Build.References

namespace CodeAtlas.Build

open Stepwise References
open References.Task (Comes Falls Records Adds)
open Script (Node)

/-- The walk of the second pass over a registered file starts in its scope. At each task that it
comes to, and where it leaves it, all scopes are those of registered definitions and all names in
them stand for parameters or registered definitions. Such a task fails or falls into the next ones.
The ends of an edge that it is to add are there, and it leaves the records that it should if it
comes to its end, which it does if the documents of the setup have an answer and there is no number
too long to be shown. All edges lead from a node to a node. -/
theorem comes_to_proven_points (setup : Setup) (issued : Nat) (done : List Source) (source : Source)
    (rest : List Source)
    (hfile : fileId source.name ∈
      (firstPass setup issued (done ++ source :: rest)).registry.keys) :
    let sources := done ++ source :: rest
    let registry := (firstPass setup issued sources).registry
    let start := secondPass setup issued sources done
    (∃ scope, scopeOf start (fileId source.name) = .ok scope ∧ Proven registry ⟨start, [scope]⟩ ∧
      ∀ n, after (visitFile setup source n) start =
          (after (Task.run setup source.name (.node 0 n)) ⟨start, [scope]⟩).survey ∧
        ∀ t s, Comes setup source.name (.node 0 n) ⟨start, [scope]⟩ t s →
          Proven registry s ∧ Proven registry (after (t.run setup source.name) s) ∧
          (t.isStep = false →
            Falls setup source.name (t.run setup source.name) s (t.parts source.name s)) ∧
          (∀ relation a b details, t = .link relation a b details →
            (s.survey.node? a).isSome = true ∧ (s.survey.node? b).isSome = true) ∧
          ∀ k, t.records? source.name s = some k →
            Records (t.Answered setup) k (t.run setup source.name) s) ∧
    ∀ e ∈ (surveySources setup issued sources).draft.edges,
      (surveySources setup issued sources).draft.Joins e := by
  intro sources registry start
  have hregistry : start.registry = registry := registry_secondPass setup issued sources done
  have hregistered : Registered [] registry :=
    Definitions.has_foldl_addDefinitions setup sources ⟨by simp, by simp⟩
  refine ⟨?_, (joined_surveySources setup issued sources).edges⟩
  have hthere : fileId source.name ∈ start.registry.keys := hregistry ▸ hfile
  obtain ⟨scope, hscope, hstart, -⟩ := exists_fileScope (hregistry ▸ hregistered) hthere
  rw [hregistry] at hstart
  refine ⟨scope, hscope, hstart, fun n ↦ ⟨after_visitFile hscope setup n, fun t s hcomes ↦ ?_⟩⟩
  have hsited : t.Sited registry s :=
    hcomes.sited ⟨hstart, by simp [State.ids], trivial⟩
  refine ⟨hsited.proven, keeps_proven_run setup source.name hsited.known.isGrounded s hsited.proven,
    fun ht ↦ Task.falls_run ht s, ?_, fun k hk ↦ Task.records_run hregistered hsited hk⟩
  rintro relation a b details rfl
  have hfound {id : String} (hid : id ∈ registry.keys) : (s.survey.node? id).isSome = true := by
    rw [← hsited.proven.unchanged] at hid hregistered
    exact (Survey.isSome_node?_iff hregistered).2 hid
  exact ⟨hfound hsited.known.1, hfound hsited.known.2⟩

def calledName : Node := .leaf (.name "g" .load) ⟨1, 1⟩

def callTree : Node := .mk .module ⟨1, 1⟩ [.mk .expr ⟨1, 1⟩ [.mk (.call 0) ⟨1, 1⟩ [calledName]]]

lemma comes_to_call (setup : Setup) (path : String) (s : State) :
    Comes setup path (.node 0 callTree) s (.call 1 calledName) s := by
  have hmodule : Task.parts path s (.node 0 callTree) = .ok ([] ++ .node 2 _ :: []) := rfl
  have hexpr : Task.parts path s (.node 2 (.mk .expr ⟨1, 1⟩ [.mk (.call 0) ⟨1, 1⟩ [calledName]])) =
      .ok ([] ++ .node 4 _ :: []) := rfl
  have hcall : Task.parts path s (.node 4 (.mk (.call 0) ⟨1, 1⟩ [calledName])) =
      .ok ([] ++ .call 1 calledName :: [.node 7 calledName]) := rfl
  exact .part hmodule rfl (.part hexpr rfl (.part hcall rfl (.start _ _)))

theorem comes_to_proven_points_using :
    fileId usingSource.name ∈ (firstPass scriptSetup 0 [usingSource]).registry.keys ∧
    ∃ scope s', Task.run scriptSetup usingSource.name (.call 1 calledName)
        ⟨secondPass scriptSetup 0 [usingSource] [], [scope]⟩ = .ok () s' ∧
      Adds 1 ⟨secondPass scriptSetup 0 [usingSource] [], [scope]⟩ s' ∧
      Proven (firstPass scriptSetup 0 [usingSource]).registry s' := by
  have hfile : fileId usingSource.name ∈ (firstPass scriptSetup 0 [usingSource]).registry.keys := by
    decide +kernel
  obtain ⟨⟨scope, -, -, hpoints⟩, -⟩ :=
    comes_to_proven_points scriptSetup 0 [] usingSource [] hfile
  obtain ⟨-, hafter, -, -, hrecords⟩ := (hpoints callTree).2 _ _ (comes_to_call _ _ _)
  have hends := (hrecords 1 rfl).ends
  have hanswered : (Task.call 1 calledName).Answered scriptSetup := by
    refine ⟨ready_scriptSetup, fun n hn ↦ ?_⟩
    obtain rfl := Option.some.inj hn
    rfl
  obtain ⟨_, s', hrun⟩ := hends.2 hanswered
  rw [after_of_ok hrun] at hafter
  exact ⟨hfile, scope, s', hrun, hends.1 () s' hrun, hafter⟩

def callingSource : Source := ⟨"a.py", "/p/a.py", .ok "def f():\n    pass\n\n\nf()\n"⟩

/-- A setup whose mapping has a list where the name of an edge should be. -/
def listedSetup : Setup :=
  ⟨⟨.obj [], .obj [("calls", .arr [.str "calls"])], coreRules⟩, Catalog.pythonInstructions⟩

/-- A member of a number that is too long to be written. -/
def longCallee : Node :=
  .mk (.attribute "bit_length" .load) ⟨1, 1⟩ [.leaf (.constant (.int (Nat.pow 16 3572))) ⟨1, 1⟩]

/-- A call leaves no record where the mapping has no proper name for its edge, nor where its target
is unknown and a number in it is too long to be shown. -/
theorem failing_call_unrecorded :
    (∃ text n, callingSource.tree = .ok (text, n) ∧
      callPlaces (filePlace callingSource) n = [filePlace callingSource]) ∧
    fileId callingSource.name ∈ (firstPass listedSetup 0 [callingSource]).registry.keys ∧
    (surveySources listedSetup 0 [callingSource]).draft.edges = [] ∧
    (surveySources listedSetup 0 [callingSource]).draft.ambiguities = [] ∧
    ∀ s, Task.run scriptSetup "a.py" (.call 1 longCallee) s = .error Script.Constant.tooLong s := by
  refine ⟨?_, by decide +kernel, by decide +kernel, by decide +kernel, fun s ↦ ?_⟩
  · exact exists_tree_of_any callingSource
      (fun n ↦ callPlaces (filePlace callingSource) n = [filePlace callingSource])
      (by decide +kernel)
  · exact Task.run_call_of_tooLong scriptSetup "a.py" 1 rfl (by decide +kernel)

end CodeAtlas.Build
