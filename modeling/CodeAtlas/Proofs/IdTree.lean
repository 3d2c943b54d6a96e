import CodeAtlas.Proofs.ProvenNames
import CodeAtlas.Proofs.SeparateFiles

/-!
# Registered ids as a tree

A definition is registered below the one around it, which has been registered before. So the
registered ids are a forest at any time, wherever a walk has stopped: its roots are the files, and
each other id ends in the name of its node, below an id that is registered too. Consequently the
path of a file can be read off any id of a definition in it.
-/

namespace CodeAtlas.Build

open Fallible Stepwise List Survey Text
open Script (Node)

variable {setup : Setup} {id name path : String} {node : Json} {source : Source}
  {sources : List Source}
variable {root : String → Prop} {known : List String} {registry : Table String Json}

/-- A node stands in a registry below the node of another id, by its own name. -/
def StandsBelow (registry : Table String Json) (id : String) (node : Json) : Prop :=
  ∃ parent ∈ registry.keys, ∃ name, id = symbolId parent name ∧
    node.member? "name" = some (.str name)

/-- All but the roots stand below another node, and some ids are known to be registered. -/
structure Rooted (root : String → Prop) (known : List String) (registry : Table String Json) :
    Prop where
  known : known ⊆ registry.keys
  below : ∀ id node, registry.get? id = some node → ¬root id → StandsBelow registry id node

namespace Rooted

lemma of_cons (h : Rooted root (id :: known) registry) : Rooted root known registry :=
  ⟨(cons_subset.1 h.known).2, h.below⟩

lemma put (h : Rooted root known registry) (hnode : ¬root id → StandsBelow registry id node) :
    Rooted root (id :: known) (registry.put id node) := by
  have hmono {other : String} {node' : Json} (hbelow : StandsBelow registry other node') :
      StandsBelow (registry.put id node) other node' := by
    obtain ⟨parent, hparent, hname⟩ := hbelow
    exact ⟨parent, Table.mem_keys_put.2 (.inr hparent), hname⟩
  refine ⟨fun other hother ↦ ?_, fun other node' hother hroot ↦ ?_⟩
  · exact Table.mem_keys_put.2 ((mem_cons.1 hother).imp_right fun hmem ↦ h.known hmem)
  · rw [Table.get?_put] at hother
    split at hother
    · subst other
      cases hother
      exact hmono (hnode hroot)
    · exact hmono (h.below other node' hother hroot)

end Rooted

namespace Definitions

variable {parent : Parent} {steps front : List Step} {n : Node} {inner : Parent → List Step}
  {α : Type}

/-- Steps that keep the tree, if some ids are registered. -/
abbrev KeepTree (setup : Setup) (root : String → Prop) (known : List String) (steps : List Step) :
    Prop :=
  Keeps (Over (Rooted root known)) (runAll setup steps)

lemma keepTree_append (hfront : KeepTree setup root known front)
    (h : KeepTree setup root known steps) : KeepTree setup root known (front ++ steps) := by
  rw [KeepTree, runAll_append]
  exact .bind hfront fun _ ↦ h

lemma keepTree_orFail {x : Except Fault α} {next : α → List Step}
    (h : ∀ a, x = .ok a → KeepTree setup root known (next a)) :
    KeepTree setup root known (orFail x next) := by
  cases x with
  | ok a => exact h a rfl
  | error f =>
    rw [orFail, KeepTree, runAll_singleton]
    exact .throw f

lemma keepTree_of_quiet (h : ∀ step ∈ steps, step.registers? = none) :
    KeepTree setup root known steps :=
  .forM fun step hstep ↦ step.keeps_run (fun id node hnode ↦ by simp [h step hstep] at hnode)
    keepsRecords_within

lemma keepTree_register
    (hnode : ∀ registry, Rooted root known registry → ¬root id → StandsBelow registry id node)
    (h : KeepTree setup root (id :: known) steps) :
    KeepTree setup root known (.register id node :: steps) := by
  rw [KeepTree, runAll_cons]
  intro s hs
  have hput : Over (Rooted root (id :: known)) (s.register id node) := Rooted.put hs (hnode _ hs)
  exact Rooted.of_cons (h _ hput)

lemma keepTree_variableSteps (hparent : parent.id ∈ known) (definition : String) (n : Node) :
    KeepTree setup root known (variableSteps setup parent definition n) := by
  refine .forM fun step hstep ↦ ?_
  obtain ⟨name, -, hstep⟩ := mem_flatMap.1 hstep
  cases htype : setup.schema.nodeType definition with
  | error f =>
    rw [htype] at hstep
    obtain rfl := mem_singleton.1 hstep
    exact .throw f
  | ok type =>
    rw [htype] at hstep
    obtain rfl := mem_singleton.1 hstep
    refine Step.keeps_run (fun id node hnode s hs ↦ ?_) keepsRecords_within
    cases hnode
    exact (Rooted.put hs fun _ ↦ ⟨parent.id, hs.known hparent, name, rfl, rfl⟩).of_cons

lemma keepTree_definition (hparent : parent.id ∈ known)
    (hname : node.member? "name" = some (.str name))
    {inFile inClass : Step} (hfile : inFile.registers? = none) (hclass : inClass.registers? = none)
    (h : KeepTree setup root (symbolId parent.id name :: known) steps) :
    KeepTree setup root known
      (.register (symbolId parent.id name) node :: linksIn parent inFile inClass ++ steps) := by
  refine keepTree_register (fun registry hs _ ↦ ⟨parent.id, hs.known hparent, name, rfl, hname⟩) ?_
  exact keepTree_append (keepTree_of_quiet (forall_mem_linksIn hfile hclass)) h

lemma keepTree_classSteps (hparent : parent.id ∈ known)
    (h : ∀ p : Parent, KeepTree setup root (p.id :: known) (inner p)) :
    KeepTree setup root known (classSteps setup parent name n inner) :=
  keepTree_orFail fun type _ ↦ keepTree_definition hparent rfl rfl rfl
  (h ⟨symbolId parent.id name, type⟩)

lemma keepTree_functionSteps (hparent : parent.id ∈ known) (isAsync : Bool)
    (h : ∀ p : Parent, KeepTree setup root (p.id :: known) (inner p)) :
    KeepTree setup root known (functionSteps setup parent name isAsync n inner) := by
  rw [functionSteps]
  split
  · exact keepTree_of_quiet (forall_mem_singleton.2 rfl)
  · refine keepTree_orFail fun type _ ↦ keepTree_orFail fun node hnode ↦ ?_
    exact keepTree_definition hparent (describes_functionNode hnode).name rfl rfl
      (h ⟨symbolId parent.id name, type⟩)

mutual

lemma keepTree_steps (parent : Parent) (depth : Nat) (known : List String)
    (hparent : parent.id ∈ known) :
    (n : Node) → KeepTree setup root known (Definitions.steps setup parent depth n)
  | .mk form span children => by
    unfold Definitions.steps
    refine keepTree_orFail fun _ _ ↦ ?_
    cases form with
    | classDef name bases keywords body =>
      exact keepTree_classSteps hparent fun p ↦ keepTree_stepsAll p _ _ mem_cons_self children
    | function name isAsync body decorators =>
      exact keepTree_functionSteps hparent isAsync fun p ↦
        keepTree_stepsAll p _ _ mem_cons_self children
    | assign count => exact keepTree_variableSteps hparent _ _
    | annAssign => exact keepTree_variableSteps hparent _ _
    | _ => exact keepTree_stepsAll parent _ known hparent children

lemma keepTree_stepsAll (parent : Parent) (depth : Nat) (known : List String)
    (hparent : parent.id ∈ known) : (ns : List Node) →
    KeepTree setup root known (stepsAll setup parent depth ns)
  | [] => .pure _
  | n :: rest => keepTree_append (keepTree_steps parent depth known hparent n)
      (keepTree_stepsAll parent depth known hparent rest)

end

lemma keepTree_fileSteps (hroot : root (fileId source.name)) (text : String) (n : Node) :
    KeepTree setup root known (fileSteps setup source text n) :=
  keepTree_orFail fun type _ ↦ keepTree_register (fun _ _ hnot ↦ absurd hroot hnot)
    (keepTree_stepsAll ⟨fileId source.name, type⟩ 3 _ mem_cons_self n.children)

/-- One of the steps of the first pass over a file registers an id. -/
def Defines (setup : Setup) (source : Source) (id : String) : Prop :=
  ∃ text n, source.tree = .ok (text, n) ∧
    ∃ step ∈ fileSteps setup source text n, ∃ node, step.registers? = some (id, node)

lemma Defines.isIdOf (h : Defines setup source id) : IsIdOf (fileId source.name) id := by
  obtain ⟨text, n, -, step, hstep, node, hnode⟩ := h
  exact ((arises_fileSteps (fun _ name hid ↦ hid.symbolId name) (.inl rfl) text n step
    hstep).registers hnode).1

end Definitions

open Definitions (Defines)

/-! ## The first pass -/

lemma Rooted.firstPass (setup : Setup) (issued : Nat) (sources : List Source) :
    Rooted (fun id ↦ ∃ source ∈ sources, id = fileId source.name) []
      (firstPass setup issued sources).registry := by
  refine foldlRecOn (motive := Over (Rooted _ [])) sources _ ⟨nil_subset _, fun _ _ h ↦ ?_⟩
    fun s hs source hsource ↦ ?_
  · cases h
  · refine walk_of_after (fun _ _ hs ↦ hs) (after_lift_bind hs fun parsed _ ↦ ?_) _ _
    exact Definitions.keepTree_fileSteps ⟨source, hsource, rfl⟩ parsed.1 parsed.2 s hs

lemma exists_defines (issued : Nat) (h : id ∈ (firstPass setup issued sources).registry.keys) :
    ∃ source ∈ sources, Defines setup source id := by
  have hall : Over
      (fun registry ↦ ∀ id ∈ registry.keys, ∃ source ∈ sources, Defines setup source id)
      (firstPass setup issued sources) := by
    refine foldlRecOn sources _ (fun _ hid ↦ by cases hid) fun s hs source hsource ↦ ?_
    refine walk_of_after (fun _ _ hs ↦ hs) (after_lift_bind hs fun parsed hparsed ↦ ?_) _ _
    refine Keeps.forM (fun step hstep ↦ ?_) s hs
    refine step.keeps_run (fun id node hnode s hs other hother ↦ ?_) keepsRecords_within
    rcases Table.mem_keys_put.1 hother with rfl | hother
    · exact ⟨source, hsource, parsed.1, parsed.2, hparsed, step, hstep, node, hnode⟩
    · exact hs other hother
  exact hall id h

/-- The registered ids are a forest, whether or not walks have failed. Each is registered by a step
of one of the files. Unless it is the id of a file, it is made of a registered id and of the name of
its node. What stands before its first pair of colons is the path of any file that has a step for
it, if that path has neither pairs of colons nor backslashes and does not end in a colon. -/
theorem registered_ids_rooted (setup : Setup) (issued : Nat) (sources : List Source) :
    ∀ id node, (firstPass setup issued sources).registry.get? id = some node →
      ((∀ source ∈ sources, id ≠ fileId source.name) →
        StandsBelow (firstPass setup issued sources).registry id node) ∧
      (∃ source ∈ sources, Defines setup source id) ∧
      ∀ source ∈ sources, Defines setup source id → IsPlainPath source.name →
        headBy "::" id = source.name := by
  intro id node hnode
  refine ⟨fun hfile ↦ ?_, exists_defines issued (Table.mem_keys_of_get? hnode), ?_⟩
  · exact (Rooted.firstPass setup issued sources).below id node hnode fun ⟨source, hsource, heq⟩ ↦
      hfile source hsource heq
  · intro source _ hdefines hpath
    have hid := hdefines.isIdOf
    rw [fileId_eq hpath.backslash] at hid
    exact headBy_colons hpath.toIsBounded hid

theorem registered_ids_rooted_method :
    ∃ node, (firstPass scriptSetup 0 [takenSource]).registry.get? "a.py::Shop::sell" = some node ∧
      StandsBelow (firstPass scriptSetup 0 [takenSource]).registry "a.py::Shop::sell" node ∧
      Defines scriptSetup takenSource "a.py::Shop::sell" ∧ IsPlainPath takenSource.name ∧
      headBy "::" "a.py::Shop::sell" = takenSource.name := by
  have hkeys : "a.py::Shop::sell" ∈ (firstPass scriptSetup 0 [takenSource]).registry.keys :=
    by decide +kernel
  obtain ⟨node, hnode⟩ := Table.exists_of_mem_keys hkeys
  obtain ⟨hbelow, ⟨source, hsource, hdefines⟩, hpaths⟩ :=
    registered_ids_rooted scriptSetup 0 [takenSource] "a.py::Shop::sell" node hnode
  obtain rfl := mem_singleton.1 hsource
  have hpath : IsPlainPath takenSource.name :=
    ⟨⟨undivided_iff.2 (by decide), by decide⟩, by decide⟩
  refine ⟨node, hnode, hbelow ?_, hdefines, hpath, hpaths _ hsource hdefines hpath⟩
  exact forall_mem_singleton.2 (by decide)

/-- A file whose path ends in a colon. -/
def colonSource : Source := ⟨"a:", "/p/a:", .ok "def f():\n    pass\n"⟩

theorem colon_hides_path :
    Undivided colonSource.name ∧ occursIn "\\" colonSource.name = false ∧
      "a:::f" ∈ (firstPass scriptSetup 0 [colonSource]).registry.keys ∧
      Defines scriptSetup colonSource "a:::f" ∧ headBy "::" "a:::f" ≠ colonSource.name := by
  have hkeys : "a:::f" ∈ (firstPass scriptSetup 0 [colonSource]).registry.keys := by decide +kernel
  obtain ⟨source, hsource, hdefines⟩ := exists_defines 0 hkeys
  obtain rfl := mem_singleton.1 hsource
  exact ⟨undivided_iff.2 (by decide), by decide, hkeys, hdefines, by decide⟩

end CodeAtlas.Build
