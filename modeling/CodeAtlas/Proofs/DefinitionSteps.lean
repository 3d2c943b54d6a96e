import CodeAtlas.Build.References
import CodeAtlas.Proofs.DocumentLaws
import CodeAtlas.Proofs.Stepwise

/-!
# The first pass, step by step

An edge is added where both of its ends are registered and the schema permits it between their
types. Otherwise there is a ticket in its place, or a failure, or nothing at all. There are few
kinds of steps, and all ids in them are made of the id of the file and of names. Consequently what
each kind of step keeps is kept by the first pass.
-/

namespace CodeAtlas.Build

namespace Survey

open Stepwise Table

variable {details : List (String × Json)} {s : Survey}

lemma mem_keys_of_node? {id : String} (h : (s.node? id).isSome = true) : id ∈ s.registry.keys := by
  obtain ⟨n, hn⟩ := Option.isSome_iff_exists.1 h
  exact mem_keys_of_get? (Option.filter_eq_some_iff.1 hn).1

/-- Details of an edge that leave its kind and its ends alone. -/
def AreDetails (details : List (String × Json)) : Prop :=
  ∀ name ∈ ["edge", "from", "to"], name ∉ keys details

lemma areDetails_nil : AreDetails [] := by simp [AreDetails, keys]

lemma member?_of_areDetails (h : AreDetails details) {name : String}
    (hname : name ∈ ["edge", "from", "to"]) (members : List (String × Json)) :
    (Json.obj (merge members details)).member? name = get? members name := by
  rw [Json.member?_obj, get?_merge_of_none (get?_eq_none_iff.2 (h name hname))]

/-- The kind of edge that a relation becomes between two registered nodes. -/
inductive Admits (setup : Setup) (relation source target : String) (s : Survey) (edge : Json) : Prop
  | intro {a b sourceType targetType : Json} (ha : s.node? source = some a)
      (hb : s.node? target = some b) (hedge : setup.schema.edgeType relation = .ok edge)
      (hsource : a.need "node_type" = .ok sourceType)
      (htarget : b.need "node_type" = .ok targetType)
      (hallowed : setup.schema.rules.allows edge sourceType targetType = .ok true)

section

variable {setup : Setup} {P : Survey → Prop}

lemma keeps_emitTicket_of (hissue : ∀ s, P s → P { s with draft := s.draft.issue })
    (hticket : ∀ s t resolver, P s → P { s with draft := s.draft.addTicket t resolver })
    (kind expression reason scope confidence : String) :
    Keeps P (emitTicket setup kind expression reason scope confidence) := by
  refine .bind (.of_modify hissue) fun _ ↦ .bind (.lift _) fun resolver ↦ ?_
  exact .of_modify fun s ↦ hticket s _ resolver

lemma keeps_emitEdge_of (hticket : ∀ kind expression reason scope confidence,
      Keeps P (emitTicket setup kind expression reason scope confidence))
    {relation source target : String}
    (hadd : ∀ s edge, P s → Admits setup relation source target s edge →
      P { s with draft := s.draft.addEdge (.obj (merge
        [("edge", edge), ("from", .str source), ("to", .str target)] details)) }) :
    Keeps P (emitEdge setup relation source target details) := by
  refine .get_bind fun s hs ↦ ?_
  split
  next a b ha hb =>
    refine after_lift_bind hs fun edge hedge ↦ ?_
    split
    · refine after_lift_bind hs fun sourceType hsource ↦ after_lift_bind hs fun targetType htarget ↦
        after_lift_bind hs fun allowed hallowed ↦ ?_
      split
      next htrue =>
        rw [htrue] at hallowed
        exact hadd s edge hs ⟨ha, hb, hedge, hsource, htarget, hallowed⟩
      next => exact hticket _ _ _ _ _ s hs
    · exact hticket _ _ _ _ _ s hs
  next => exact hs

/-- Tickets keep a property of surveys, and so do edges whose details leave their kind and ends
alone, and entries in the log. -/
structure KeepsRecords (setup : Setup) (P : Survey → Prop) : Prop where
  ticket : ∀ kind expression reason scope confidence,
    Keeps P (emitTicket setup kind expression reason scope confidence)
  edge : ∀ relation source target details, AreDetails details →
    Keeps P (emitEdge setup relation source target details)
  log : ∀ s entry, P s → P { s with draft := s.draft.addLog entry }

/-- What survives an entry in the log survives a walk that it survives up to its end. -/
lemma walk_of_after (hlog : ∀ s entry, P s → P { s with draft := s.draft.addLog entry })
    {step : Surveying Unit} (h : P (after step s)) (word : String) (source : Source) :
    P (s.walk word source step) := by
  rw [after] at h
  rw [walk]
  cases hstep : step s with
  | ok _ u =>
    rw [hstep] at h
    exact h
  | error f u =>
    rw [hstep] at h
    exact hlog u _ h

end

/-- A property of the registry and the nodes alone. -/
def Within (P : Table String Json → List Json → Prop) (s : Survey) :
    Prop := P s.registry s.draft.nodes

variable {setup : Setup} {P : Table String Json → List Json → Prop}

lemma keeps_within_emitEdge (relation source target : String) (details : List (String × Json)) :
    Keeps (Within P) (emitEdge setup relation source target details) :=
  keeps_emitEdge_of (keeps_emitTicket_of (fun _ hs ↦ hs) fun _ _ _ hs ↦ hs) fun _ _ hs _ ↦ hs

lemma keepsRecords_within : KeepsRecords setup (Within P) where
  ticket := keeps_emitTicket_of (fun _ hs ↦ hs) fun _ _ _ hs ↦ hs
  edge _ _ _ _ _ := keeps_within_emitEdge _ _ _ _
  log _ _ hs := hs

/-- A property of the registry alone. -/
abbrev Over (P : Table String Json → Prop) : Survey → Prop := Within fun registry _ ↦ P registry

abbrev AllNodes (P : Json → Prop) : Survey → Prop := Within fun _ nodes ↦ ∀ n ∈ nodes, P n

end Survey

/-- The survey after the first pass over some sources. -/
def firstPass (setup : Setup) (issued : Nat) (sources : List Source) : Survey :=
  sources.foldl (Survey.addDefinitions setup) { draft := { issued } }
open List

/-- A node tells its name and its type. -/
structure Tells (n : Json) : Prop where
  name : ∃ name, n.member? "name" = some (.str name)
  type : ∃ type, n.member? "node_type" = some type

namespace Definitions

open Fallible Stepwise
open Script (Node)

variable {id name : String} {node type : Json} {isAsync : Bool} {n : Node} {α : Type}

/-- What a step registers, and under which id. -/
def Step.registers? : Step → Option (String × Json)
  | .register id node => some (id, node)
  | .once _ _ id node => some (id, node)
  | _ => none

lemma Step.keeps_run {P : Survey → Prop} {setup : Setup} {step : Step}
    (hregister : ∀ id node, step.registers? = some (id, node) → ∀ s, P s → P (s.register id node))
    (hrecords : Survey.KeepsRecords setup P) : Keeps P (step.run setup) := by
  have hlink (relation source target : String) :=
    hrecords.edge relation source target [] Survey.areDetails_nil
  cases step with
  | fail f => exact .throw f
  | register id node => exact .of_modify (hregister id node rfl)
  | link relation source target => exact hlink relation source target
  | note kind expression reason scope confidence =>
    exact hrecords.ticket kind expression reason scope confidence
  | once relation parent id node =>
    refine .get_bind fun s hs ↦ ?_
    split
    · exact Keeps.bind (.of_modify (hregister id node rfl)) (fun _ ↦ hlink relation parent id) s hs
    · exact hs

lemma forall_mem_linksIn {P : Step → Prop} {parent : Parent} {inFile inClass : Step}
    (hfile : P inFile) (hclass : P inClass) : ∀ step ∈ linksIn parent inFile inClass, P step := by
  intro step hstep
  rw [linksIn] at hstep
  split at hstep
  · exact mem_singleton.1 hstep ▸ hfile
  · split at hstep
    · exact mem_singleton.1 hstep ▸ hclass
    · cases hstep

variable {setup : Setup}

lemma runAll_cons (step : Step) (rest : List Step) : runAll setup (step :: rest) =
    step.run setup >>= fun _ ↦ runAll setup rest := rfl

lemma runAll_append (front rest : List Step) : runAll setup (front ++ rest) =
    runAll setup front >>= fun _ ↦ runAll setup rest := by
  induction front with
  | nil => rfl
  | cons step front ih => rw [cons_append, runAll_cons, ih, runAll_cons, bind_assoc]

lemma runAll_singleton (step : Step) : runAll setup [step] = step.run setup := bind_pure_unit

/-- A node that tells its name, its type and the given id. -/
structure Introduces (id : String) (n : Json) : Prop extends Tells n where
  id : n.member? "id" = some (.str id)

lemma introduces_fileNode (source : Source) (text : String) (type : Json) (n : Node) :
    Introduces (fileId source.name) (fileNode source text type n) := ⟨⟨⟨_, rfl⟩, ⟨type, rfl⟩⟩, rfl⟩

/-- A node tells the name, the id and the type of a definition, and no path. -/
structure Describes (name id : String) (type n : Json) : Prop where
  name : n.member? "name" = some (.str name)
  id : n.member? "id" = some (.str id)
  type : n.member? "node_type" = some type
  untyped : n.member? "type" = none
  path : n.member? "file_path" = none

lemma Describes.introduces (h : Describes name id type node) : Introduces id node :=
  ⟨⟨⟨name, h.name⟩, ⟨type, h.type⟩⟩, h.id⟩

lemma get?_documentation {key : String} (hkey : key ≠ "docstring") (n : Node) :
    Table.get? (documentation n) key = none := by
  rw [Table.get?_eq_none_iff, documentation]
  split
  · split <;> simp [Table.keys, hkey]
  · simp [Table.keys]

lemma describes_classNode (name id : String) (type : Json) (n : Node) :
    Describes name id type (classNode name id type n) := by
  refine ⟨rfl, rfl, rfl, ?_, ?_⟩
  all_goals
    rw [classNode, Json.member?_obj, Table.get?_append, get?_documentation (by decide)]
    rfl

lemma describes_functionNode (h : functionNode name id type isAsync n = .ok node) :
    Describes name id type node := by
  obtain ⟨shown, -, h⟩ := bind_eq_ok.1 h
  obtain rfl := pure_eq_ok.1 h
  refine ⟨rfl, rfl, rfl, ?_, ?_⟩
  all_goals
    rw [Json.member?_obj, Table.get?_append, Table.get?_append, get?_documentation (by decide)]
    rfl

lemma describes_variableNode (name id : String) (type : Json) (n : Node) :
    Describes name id type (variableNode name id type n) := ⟨rfl, rfl, rfl, rfl, rfl⟩

/-- The type of a method, or one that the mapping gives to a definition. -/
def IsType (setup : Setup) (type : Json) : Prop :=
  type = .str "Method" ∨ ∃ definition ∈ ["ClassDef", "FunctionDef", "Assign", "AnnAssign"],
    setup.schema.nodeType definition = .ok type

/-- What is registered in the file of a path: the file, or a definition below an id of some kind. -/
inductive Registers (setup : Setup) (path : String) (own : String → Prop) : String → Json → Prop
  | file {source : Source} {type : Json} (text : String) (n : Node) (hpath : source.name = path)
      (htype : setup.schema.nodeType "Module" = .ok type) :
      Registers setup path own (fileId source.name) (fileNode source text type n)
  | symbol {parent name : String} {type node : Json} (hparent : own parent)
      (htype : IsType setup type) (h : Describes name (symbolId parent name) type node) :
      Registers setup path own (symbolId parent name) node

/-- The relations between a definition and one inside it. -/
def enclosing : List String :=
  ["defines", "defines_class", "defines_function", "contains_variable", "contains_method"]

/-- What a step of the first pass over the file of a path can be, where all ids that it registers or
links are of some kind. -/
inductive Step.Arises (setup : Setup) (path : String) (own : String → Prop) : Step → Prop
  | fail (f : Fault) : Arises setup path own (.fail f)
  | register {id : String} {node : Json} (hid : own id) (h : Registers setup path own id node) :
      Arises setup path own (.register id node)
  | once {relation parent id : String} {node : Json} (hrelation : relation ∈ enclosing)
      (hparent : own parent) (hid : own id) (h : Registers setup path own id node) :
      Arises setup path own (.once relation parent id node)
  | link {relation source target : String} (hrelation : relation ∈ enclosing)
      (hsource : own source) (htarget : own target) :
      Arises setup path own (.link relation source target)
  | note (kind expression reason scope confidence : String) :
      Arises setup path own (.note kind expression reason scope confidence)

section

variable {inner : Parent → List Step} {source : Source}
variable {path : String} {own : String → Prop} {parent : Parent}

lemma Registers.introduces (h : Registers setup path own id node) : Introduces id node := by
  cases h with
  | file text n => exact introduces_fileNode _ text _ n
  | symbol _ _ h => exact h.introduces

lemma Step.Arises.registers {step : Step} (h : step.Arises setup path own)
    (hnode : step.registers? = some (id, node)) : own id ∧ Registers setup path own id node := by
  cases h with
  | register hid h | once _ _ hid h =>
    cases hnode
    exact ⟨hid, h⟩
  | _ => cases hnode

lemma Step.Arises.of_once {relation around : String}
    (h : (Step.once relation around id node).Arises setup path own) : own around := by
  cases h with
  | once _ hparent => exact hparent

lemma Step.Arises.of_link {relation source target : String}
    (h : (Step.link relation source target).Arises setup path own) : own source ∧ own target := by
  cases h with
  | link _ hsource htarget => exact ⟨hsource, htarget⟩

lemma arises_orFail {x : Except Fault α} {next : α → List Step}
    (h : ∀ a, x = .ok a → ∀ step ∈ next a, step.Arises setup path own) :
    ∀ step ∈ orFail x next, step.Arises setup path own := by
  cases x with
  | ok a => exact h a rfl
  | error f =>
    intro step hstep
    obtain rfl := mem_singleton.1 hstep
    exact .fail f

lemma arises_variableSteps {definition : String}
    (hdefinition : definition ∈ ["Assign", "AnnAssign"])
    (hparent : own parent.id) (hown : ∀ name, own (symbolId parent.id name)) (n : Node) :
    ∀ step ∈ variableSteps setup parent definition n, step.Arises setup path own := by
  intro step hstep
  obtain ⟨name, -, hstep⟩ := mem_flatMap.1 hstep
  refine arises_orFail (fun type htype step hstep ↦ ?_) step hstep
  obtain rfl := mem_singleton.1 hstep
  refine .once ?_ hparent (hown name)
    (.symbol hparent (.inr ⟨_, ?_, htype⟩) (describes_variableNode _ _ _ n))
  · split <;> simp [enclosing]
  · exact mem_append_right ["ClassDef", "FunctionDef"] hdefinition

lemma arises_classSteps (hparent : own parent.id) (hname : own (symbolId parent.id name))
    (hinner : ∀ p, own p.id → ∀ step ∈ inner p, step.Arises setup path own) :
    ∀ step ∈ classSteps setup parent name n inner, step.Arises setup path own := by
  refine arises_orFail fun type htype step hstep ↦ ?_
  rw [cons_append, mem_cons, mem_append] at hstep
  rcases hstep with rfl | hstep | hstep
  · exact .register hname (.symbol hparent (.inr ⟨_, by simp, htype⟩) (describes_classNode _ _ _ n))
  · exact forall_mem_linksIn (.link (by simp [enclosing]) hparent hname)
      (.note _ _ _ _ _) step hstep
  · exact hinner _ hname step hstep

lemma isType_functionType (h : functionType setup parent = .ok type) : IsType setup type := by
  rw [functionType] at h
  split at h
  · exact .inl (Except.ok.inj h).symm
  · exact .inr ⟨_, by simp, h⟩

lemma arises_functionSteps (hparent : own parent.id) (hname : own (symbolId parent.id name))
    (hinner : ∀ p, own p.id → ∀ step ∈ inner p, step.Arises setup path own) :
    ∀ step ∈ functionSteps setup parent name isAsync n inner, step.Arises setup path own := by
  rw [functionSteps]
  split
  · intro step hstep
    obtain rfl := mem_singleton.1 hstep
    exact .note _ _ _ _ _
  · refine arises_orFail fun type htype ↦ arises_orFail fun node hnode step hstep ↦ ?_
    rw [cons_append, mem_cons, mem_append] at hstep
    rcases hstep with rfl | hstep | hstep
    · exact .register hname (.symbol hparent (isType_functionType htype)
        (describes_functionNode hnode))
    · exact forall_mem_linksIn (.link (by simp [enclosing]) hparent hname)
        (.link (by simp [enclosing]) hparent hname) step hstep
    · exact hinner _ hname step hstep

mutual

lemma arises_steps (hown : ∀ id name, own id → own (symbolId id name)) (parent : Parent)
    (depth : Nat) (hparent : own parent.id) : (n : Node) →
    ∀ step ∈ steps setup parent depth n, step.Arises setup path own
  | .mk form span children => by
    unfold steps
    refine arises_orFail fun _ _ ↦ ?_
    cases form with
    | classDef name bases keywords body =>
      exact arises_classSteps hparent (hown _ name hparent) fun p hp ↦
        arises_stepsAll hown p _ hp children
    | function name isAsync body decorators =>
      exact arises_functionSteps hparent (hown _ name hparent) fun p hp ↦
        arises_stepsAll hown p _ hp children
    | assign count =>
      exact arises_variableSteps (by simp) hparent (fun name ↦ hown _ name hparent) _
    | annAssign => exact arises_variableSteps (by simp) hparent (fun name ↦ hown _ name hparent) _
    | _ => exact arises_stepsAll hown parent _ hparent children

lemma arises_stepsAll (hown : ∀ id name, own id → own (symbolId id name)) (parent : Parent)
    (depth : Nat) (hparent : own parent.id) : (ns : List Node) →
    ∀ step ∈ stepsAll setup parent depth ns, step.Arises setup path own
  | [] => by
    intro step hstep
    rw [stepsAll] at hstep
    cases hstep
  | n :: rest => by
    intro step hstep
    rw [stepsAll] at hstep
    rcases mem_append.1 hstep with hstep | hstep
    · exact arises_steps hown parent depth hparent n step hstep
    · exact arises_stepsAll hown parent depth hparent rest step hstep

end

variable (hown : ∀ id name, own id → own (symbolId id name))
include hown

lemma arises_fileSteps (hfile : own (fileId source.name)) (text : String) (n : Node) :
    ∀ step ∈ fileSteps setup source text n, step.Arises setup source.name own := by
  refine arises_orFail fun type htype ↦ forall_mem_cons.2 ⟨?_, ?_⟩
  · exact .register hfile (.file text n rfl htype)
  · exact arises_stepsAll hown _ 3 hfile n.children

variable {P : Survey → Prop}

/-- What each step keeps is kept by the steps below a definition. -/
lemma keeps_stepsAll (h : ∀ step : Step, step.Arises setup path own → Keeps P (step.run setup))
    (hparent : own parent.id) (depth : Nat) (ns : List Node) :
    Keeps P (runAll setup (stepsAll setup parent depth ns)) :=
  .forM fun step hstep ↦ h step (arises_stepsAll hown parent depth hparent ns step hstep)

lemma keeps_visitFile_of_steps
    (h : ∀ step : Step, step.Arises setup source.name own → Keeps P (step.run setup))
    (hfile : own (fileId source.name)) (text : String) (n : Node) :
    Keeps P (visitFile setup source text n) :=
  .forM fun step hstep ↦ h step (arises_fileSteps hown hfile text n step hstep)

lemma addDefinitions_of_steps (hlog : ∀ s entry, P s → P { s with draft := s.draft.addLog entry })
    (hfile : own (fileId source.name)) {s : Survey} (hs : P s)
    (h : ∀ parsed, source.tree = .ok parsed →
      ∀ step : Step, step.Arises setup source.name own → Keeps P (step.run setup)) :
    P (s.addDefinitions setup source) :=
  Survey.walk_of_after hlog (after_lift_bind hs fun parsed hparsed ↦
    keeps_visitFile_of_steps hown (h parsed hparsed) hfile parsed.1 parsed.2 s hs) _ _

end

end Definitions

end CodeAtlas.Build
