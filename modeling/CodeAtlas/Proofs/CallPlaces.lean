import CodeAtlas.Proofs.RegisteredNodes

/-!
# Where calls stand

A call stands in a file, inside some definitions and perhaps inside an assignment. That is read off
the syntax tree alone. The first pass registers all definitions around a call, except where it skips
one: a function right inside a function.
-/

namespace CodeAtlas.Build

open Fallible Stepwise List Script
open Script (Node Form)

variable {n : Node}

/-- Where an expression stands. -/
structure Place where
  /-- The definition right around it, or else the file. -/
  scope : String
  /-- All definitions around it, the innermost first. -/
  within : List String := []
  /-- Whether the definition right around it is a function. -/
  inFunction : Bool := false
  /-- Whether it stands in an assignment. -/
  assigned : Bool := false
  /-- Whether it stands in an assignment with an annotation. -/
  annotated : Bool := false
  /-- Whether it stands in a function right inside a function. A definition inside an assignment
  with an annotation would count as well, but no source has one. -/
  skipped : Bool := false
deriving DecidableEq, Repr

/-- The place inside a definition. -/
def Place.inside (p : Place) (name : String) (isFunction : Bool) : Place :=
  { p with
    scope := symbolId p.scope name
    within := symbolId p.scope name :: p.within
    inFunction := isFunction
    skipped := p.skipped || p.annotated || (isFunction && p.inFunction) }

mutual

/-- The places of all calls in a tree that stands at a place. -/
def callPlaces (p : Place) : Node → List Place
  | .mk form _ children =>
    match form with
    | .classDef name _ _ _ => callPlacesAll (p.inside name false) children
    | .function name _ _ _ => callPlacesAll (p.inside name true) children
    -- The first child is what is called.
    | .call _ => (if children.isEmpty then [] else [p]) ++ callPlacesAll p children
    | .assign _ => callPlacesAll { p with assigned := true } children
    | .annAssign => callPlacesAll { p with annotated := true } children
    -- Imports hold names only.
    | .import_ _ => []
    | .importFrom _ _ _ => []
    | _ => callPlacesAll p children

def callPlacesAll (p : Place) : List Node → List Place
  | [] => []
  | n :: rest => callPlaces p n ++ callPlacesAll p rest

end

/-- The second place lies inside what surrounds the first. -/
structure Place.Encloses (p q : Place) : Prop where
  within : p.within ⊆ q.within
  assigned : p.assigned = true → q.assigned = true
  skipped : p.skipped = true → q.skipped = true
  annotated : p.annotated = true →
    q.annotated = true ∧ (q.skipped = false → q.within = p.within)

namespace Place.Encloses

lemma refl (p : Place) : p.Encloses p := ⟨fun _ ↦ id, id, id, fun h ↦ ⟨h, fun _ ↦ rfl⟩⟩

lemma trans {p q r : Place} (h : p.Encloses q) (h' : q.Encloses r) : p.Encloses r where
  within := List.Subset.trans h.within h'.within
  assigned ha := h'.assigned (h.assigned ha)
  skipped hs := h'.skipped (h.skipped hs)
  annotated ha := by
    obtain ⟨hq, hwithin⟩ := h.annotated ha
    obtain ⟨hr, hwithin'⟩ := h'.annotated hq
    refine ⟨hr, fun hkept ↦ (hwithin' hkept).trans (hwithin ?_)⟩
    by_contra hskipped
    rw [h'.skipped (by simpa using hskipped)] at hkept
    cases hkept

lemma inside (p : Place) (name : String) (isFunction : Bool) :
    p.Encloses (p.inside name isFunction) where
  within := subset_cons_self _ _
  assigned := id
  skipped h := by simp [Place.inside, h]
  annotated h := ⟨h, fun hkept ↦ by simp [Place.inside, h] at hkept⟩

lemma assign (p : Place) : p.Encloses { p with assigned := true } :=
  ⟨fun _ ↦ id, fun _ ↦ rfl, id, fun h ↦ ⟨h, fun _ ↦ rfl⟩⟩

lemma annotate (p : Place) : p.Encloses { p with annotated := true } :=
  ⟨fun _ ↦ id, id, id, fun _ ↦ ⟨rfl, fun _ ↦ rfl⟩⟩

end Place.Encloses

mutual

lemma encloses_of_mem_callPlaces {p q : Place} : (n : Node) → q ∈ callPlaces p n → p.Encloses q
  | .mk form span children => by
    intro hq
    unfold callPlaces at hq
    split at hq
    · exact (Place.Encloses.inside p _ _).trans (encloses_of_mem_callPlacesAll children hq)
    · exact (Place.Encloses.inside p _ _).trans (encloses_of_mem_callPlacesAll children hq)
    · rcases mem_append.1 hq with hq | hq
      · split at hq
        · cases hq
        · rw [mem_singleton.1 hq]
          exact .refl p
      · exact encloses_of_mem_callPlacesAll children hq
    · exact (Place.Encloses.assign p).trans (encloses_of_mem_callPlacesAll children hq)
    · exact (Place.Encloses.annotate p).trans (encloses_of_mem_callPlacesAll children hq)
    · cases hq
    · cases hq
    · exact encloses_of_mem_callPlacesAll children hq

lemma encloses_of_mem_callPlacesAll {p q : Place} :
    (ns : List Node) → q ∈ callPlacesAll p ns → p.Encloses q
  | [] => by
    intro hq
    cases hq
  | n :: rest => by
    intro hq
    rw [callPlacesAll, mem_append] at hq
    exact hq.elim (encloses_of_mem_callPlaces n) (encloses_of_mem_callPlacesAll rest)

end

lemma hasTooLong_of_mem {ns : List Node} (h : n ∈ ns) (hns : Node.anyTooLong ns = false) :
    n.hasTooLong = false := by
  induction ns with
  | nil => cases h
  | cons m rest ih =>
    rw [Node.anyTooLong, Bool.or_eq_false_iff] at hns
    rcases mem_cons.1 h with rfl | h
    · exact hns.1
    · exact ih h hns.2

lemma hasTooLong_of_mem_children {m : Node} (hm : m ∈ n.children) (h : n.hasTooLong = false) :
    m.hasTooLong = false := by
  obtain ⟨form, span, children⟩ := n
  rw [Node.hasTooLong, Bool.or_eq_false_iff] at h
  exact hasTooLong_of_mem hm h.2

lemma mem_children_of_params {p : Node} (h : n.params = some p) : p ∈ n.children := by
  rw [Node.params] at h
  split at h
  · exact mem_of_mem_head? h
  · cases h

lemma mem_children_of_paramDefaults {p m : Node} (h : m ∈ p.paramDefaults) : m ∈ p.children := by
  rw [Node.paramDefaults] at h
  split at h
  · exact mem_of_mem_drop h
  · cases h

lemma mem_children_of_returns {r : Node} (h : n.returns = some r) : r ∈ n.children := by
  rw [Node.returns] at h
  split at h
  · exact mem_of_mem_drop (mem_of_mem_head? h)
  · cases h

lemma exists_tree_of_any (source : Source) (p : Node → Prop) [DecidablePred p]
    (h : source.tree.toOption.any (fun parsed ↦ p parsed.2) = true) :
    ∃ text n, source.tree = .ok (text, n) ∧ p n := by
  cases htree : source.tree with
  | error f =>
    rw [htree] at h
    cases h
  | ok parsed =>
    rw [htree] at h
    exact ⟨parsed.1, parsed.2, rfl, of_decide_eq_true h⟩

/-- A walk can go through a tree from a depth on: the tree is not too deep, and it holds no number
that is too long to be written. -/
structure Passable (depth : Nat) (n : Node) : Prop where
  shallow : depth + 4 * n.depth + 1 ≤ Script.Walk.maxSteps
  short : n.hasTooLong = false

namespace Passable

variable {depth : Nat} {form : Form} {span : Script.Span} {children : List Node}

lemma enter (h : Passable depth n) : Walk.enter depth = .ok () := by
  obtain ⟨form, span, children⟩ := n
  have hshallow := h.shallow
  rw [Node.depth] at hshallow
  have hroom : ¬Walk.maxSteps < depth + Walk.nodeSteps := by
    rw [Walk.nodeSteps]
    omega
  rw [Walk.enter, if_neg]
  simpa [Walk.isTooDeep] using hroom

lemma anyTooLong (h : Passable depth (.mk form span children)) :
    Node.anyTooLong children = false := by
  have hshort := h.short
  rw [Node.hasTooLong, Bool.or_eq_false_iff] at hshort
  exact hshort.2

lemma child {steps : Nat} (h : Passable depth (.mk form span children)) (hsteps : steps ≤ 4) :
    ∀ n ∈ children, Passable (depth + steps) n := by
  intro n hn
  have hshallow := h.shallow
  have hdepth := depth_le_of_mem hn
  rw [Node.depth] at hshallow
  exact ⟨by omega, hasTooLong_of_mem hn h.anyTooLong⟩

end Passable

lemma exists_display (h : n.hasTooLong = false) : ∃ text, n.display = .ok text :=
  ⟨n.shown, by rw [Node.display, h]; rfl⟩

namespace Definitions

variable {α : Type}

lemma Safe.of_orFail {x : Except Fault α} {next : α → List Step} (h : Safe (orFail x next)) :
    ∃ a, x = .ok a ∧ Safe (next a) ∧ orFail x next = next a := by
  cases x with
  | ok a => exact ⟨a, rfl, h, rfl⟩
  | error f => cases h _ (mem_singleton_self _)

lemma safe_orFail {x : Except Fault α} {next : α → List Step} (hx : ∃ a, x = .ok a)
    (h : ∀ a, Safe (next a)) : Safe (orFail x next) := by
  obtain ⟨a, rfl⟩ := hx
  exact h a

lemma exists_constantText {c : Constant} (h : c.isTooLong = false) :
    ∃ text, c.display = .ok text := by
  rw [Constant.display.eq_def]
  split
  · exact ⟨_, rfl⟩
  · rw [h]
    exact ⟨_, rfl⟩

lemma exists_defaultText (h : n.hasTooLong = false) : ∃ text, defaultText n = .ok text := by
  obtain ⟨form, span, children⟩ := n
  rw [Node.hasTooLong, Bool.or_eq_false_iff] at h
  rw [defaultText]
  split
  next c hc => exact exists_constantText (show (Form.constant c).isTooLong = false from hc ▸ h.1)
  next => exact ⟨_, rfl⟩
  next => exact ⟨_, rfl⟩

/-- A function that holds no number too long to be written can be described. -/
lemma exists_functionNode (name id : String) (type : Json) (isAsync : Bool)
    (h : n.hasTooLong = false) : ∃ node, functionNode name id type isAsync n = .ok node := by
  obtain ⟨defaults, hdefaults⟩ : ∃ texts,
      (n.params.toList.flatMap Node.paramDefaults).mapM defaultText = .ok texts := by
    refine exists_mapM_of_forall fun m hm ↦ ?_
    obtain ⟨p, hp, hm⟩ := mem_flatMap.1 hm
    have hparams := hasTooLong_of_mem_children (mem_children_of_params (Option.mem_toList.1 hp)) h
    exact exists_defaultText (hasTooLong_of_mem_children (mem_children_of_paramDefaults hm) hparams)
  obtain ⟨returns, hreturns⟩ : ∃ v, returnsText n = .ok v := by
    rw [returnsText]
    split
    next r hr =>
      obtain ⟨text, htext⟩ :=
        exists_defaultText (hasTooLong_of_mem_children (mem_children_of_returns hr) h)
      exact ⟨.str text, by rw [htext]; rfl⟩
    next => exact ⟨.null, rfl⟩
  have hsignature : ∃ v, signature n = .ok v :=
    ⟨_, bind_eq_ok.2 ⟨defaults, hdefaults, bind_eq_ok.2 ⟨returns, hreturns, rfl⟩⟩⟩
  obtain ⟨shown, hshown⟩ := hsignature
  exact ⟨_, bind_eq_ok.2 ⟨shown, hshown, rfl⟩⟩

lemma safe_functionSteps (parent : Parent) (name : String) (isAsync : Bool)
    (hn : n.hasTooLong = false) {inner : Parent → List Step} (hinner : ∀ p, Safe (inner p)) :
    Safe (functionSteps scriptSetup parent name isAsync n inner) := by
  rw [functionSteps]
  split
  · simp [Step.isFail]
  · refine safe_orFail ?_ fun type ↦ safe_orFail (exists_functionNode _ _ _ _ hn) fun node ↦ ?_
    · rw [functionType]
      split
      · exact ⟨_, rfl⟩
      · exact ready_scriptSetup.kinds _
    · have hlinks : Safe (functionLinks parent name) := forall_mem_linksIn rfl rfl
      exact safe_cons.2 ⟨rfl, safe_append.2 ⟨hlinks, hinner _⟩⟩

mutual

lemma safe_steps (parent : Parent) (depth : Nat) :
    (n : Node) → Passable depth n → Safe (steps scriptSetup parent depth n)
  | .mk form span children, h => by
    have hinner {k : Nat} (hk : k ≤ 4) (p : Parent) :
      Safe (stepsAll scriptSetup p (depth + k) children) :=
      safe_stepsAll p (depth + k) children (h.child hk)
    have hvariables (definition : String) (n : Node) :
        Safe (variableSteps scriptSetup parent definition n) := by
      refine forall_mem_flatMap.2 fun name _ ↦ ?_
      exact safe_orFail (ready_scriptSetup.kinds _) fun type ↦ by simp [Step.isFail]
    unfold steps
    refine safe_orFail ⟨_, h.enter⟩ fun _ ↦ ?_
    cases form with
    | classDef name bases keywords body =>
      refine safe_orFail (ready_scriptSetup.kinds _) fun type ↦ ?_
      have hlinks : Safe (classLinks parent name) := forall_mem_linksIn rfl rfl
      exact safe_cons.2 ⟨rfl, safe_append.2 ⟨hlinks, hinner (by omega) _⟩⟩
    | function name isAsync body decorators =>
      exact safe_functionSteps parent name isAsync h.short (hinner (by omega))
    | assign count => exact hvariables _ _
    | annAssign => exact hvariables _ _
    | _ => exact hinner (by omega) parent

lemma safe_stepsAll (parent : Parent) (depth : Nat) : (ns : List Node) →
    (∀ n ∈ ns, Passable depth n) → Safe (stepsAll scriptSetup parent depth ns)
  | [], _ => by
    rw [stepsAll]
    exact safe_nil
  | n :: rest, h => by
    obtain ⟨hn, hrest⟩ := forall_mem_cons.1 h
    rw [stepsAll]
    exact safe_append.2 ⟨safe_steps parent depth n hn, safe_stepsAll parent depth rest hrest⟩

end

/-- The definition that is visited is the one right around a place. -/
structure Parent.At (parent : Parent) (p : Place) : Prop where
  id : parent.id = p.scope
  isFunction : (parent.isOf "Function" || parent.isOf "Method") = p.inFunction

/-- The definitions around a place are around another one, or steps register them. -/
def Covers (steps : List Step) (p q : Place) :
    Prop := q.within ⊆ p.within ++ steps.filterMap Step.id?

lemma Covers.mono {steps more : List Step} {p q : Place} (h : Covers steps p q)
    (hsteps : steps ⊆ more) : Covers more p q :=
  fun _ hid ↦ mem_append.2 ((mem_append.1 (h hid)).imp_right (filterMap_subset _ hsteps ·))

lemma Covers.inside {steps : List Step} {p q : Place} {name : String} {isFunction : Bool}
    (h : Covers steps (p.inside name isFunction) q) (node : Json) (links : List Step) :
    Covers (.register (symbolId p.scope name) node :: links ++ steps) p q := by
  refine List.Subset.trans h fun id hid ↦ ?_
  simp only [Place.inside, cons_append, mem_cons, mem_append] at hid
  simp only [cons_append, filterMap_append, mem_append, mem_cons,
    filterMap_cons_some (show Step.id? (.register (symbolId p.scope name) node) = _ from rfl)]
  tauto

/-- What a function becomes, as a function or as a method, is right around what stands in it. -/
lemma at_functionType {parent : Parent} {p : Place} {type : Json}
    (htype : functionType scriptSetup parent = .ok type) (name : String) :
    Parent.At ⟨symbolId p.scope name, type⟩ (p.inside name true) := by
  refine ⟨rfl, ?_⟩
  rw [functionType] at htype
  split at htype
  · cases htype
    rfl
  · have hfunction : scriptSetup.schema.nodeType "FunctionDef" = .ok "Function" := rfl
    obtain rfl := Except.ok.inj (hfunction.symm.trans htype)
    rfl

mutual

/-- The first pass registers the definitions around a call, except where it skips one. -/
lemma covers_steps {parent : Parent} {p q : Place} (hat : parent.At p) (depth : Nat)
    (hkept : q.skipped = false) (hplain : q.assigned = false) : (n : Node) →
    Safe (steps scriptSetup parent depth n) → q ∈ callPlaces p n →
    Covers (steps scriptSetup parent depth n) p q
  | .mk form span children, hsafe, hq => by
    unfold steps at hsafe ⊢
    unfold callPlaces at hq
    obtain ⟨-, -, hsafe, heq⟩ := hsafe.of_orFail
    rw [heq]
    cases form with
    | classDef name bases keywords body =>
      obtain ⟨type, htype, hsafe, heq⟩ := Safe.of_orFail hsafe
      have hclass : scriptSetup.schema.nodeType "ClassDef" = .ok "Class" := rfl
      obtain rfl := Except.ok.inj (hclass.symm.trans htype)
      show Covers (classSteps scriptSetup parent name _ _) p q
      rw [classSteps, heq]
      rw [hat.id] at hsafe ⊢
      exact (covers_stepsAll (p := p.inside name false) ⟨rfl, rfl⟩ _ hkept hplain children
        (safe_append.1 hsafe).2 hq).inside _ _
    | function name isAsync body decorators =>
      dsimp only at hsafe hq ⊢
      rw [functionSteps, hat.isFunction] at hsafe ⊢
      split at hsafe
      next hfunction =>
        have hskipped : (p.inside name true).skipped = true := by simp [Place.inside, hfunction]
        rw [(encloses_of_mem_callPlacesAll children hq).skipped hskipped] at hkept
        cases hkept
      next hfunction =>
        rw [if_neg hfunction]
        obtain ⟨type, htype, hsafe, heq⟩ := hsafe.of_orFail
        obtain ⟨node, -, hsafe, heq'⟩ := hsafe.of_orFail
        rw [heq, heq']
        rw [hat.id] at hsafe ⊢
        exact (covers_stepsAll (at_functionType htype name) _ hkept hplain children
          (safe_append.1 hsafe).2 hq).inside _ _
    | assign count =>
      have hencloses := encloses_of_mem_callPlacesAll (p := { p with assigned := true }) children hq
      rw [hencloses.assigned rfl] at hplain
      cases hplain
    | annAssign =>
      have hencloses :=
        encloses_of_mem_callPlacesAll (p := { p with annotated := true }) children hq
      rw [Covers, (hencloses.annotated rfl).2 hkept]
      exact subset_append_left _ _
    | call count =>
      rcases mem_append.1 hq with hq | hq
      · obtain rfl : q = p := by
          split at hq
          · cases hq
          · exact mem_singleton.1 hq
        exact subset_append_left _ _
      · exact covers_stepsAll hat _ hkept hplain children hsafe hq
    | import_ names => cases hq
    | importFrom module names level => cases hq
    | _ => exact covers_stepsAll hat _ hkept hplain children hsafe hq

lemma covers_stepsAll {parent : Parent} {p q : Place} (hat : parent.At p) (depth : Nat)
    (hkept : q.skipped = false) (hplain : q.assigned = false) : (ns : List Node) →
    Safe (stepsAll scriptSetup parent depth ns) → q ∈ callPlacesAll p ns →
    Covers (stepsAll scriptSetup parent depth ns) p q
  | [], _, hq => by cases hq
  | n :: rest, hsafe, hq => by
    rw [stepsAll] at hsafe ⊢
    rw [callPlacesAll, mem_append] at hq
    obtain ⟨hn, hrest⟩ := safe_append.1 hsafe
    rcases hq with hq | hq
    · exact (covers_steps hat depth hkept hplain n hn hq).mono (subset_append_left _ _)
    · exact (covers_stepsAll hat depth hkept hplain rest hrest hq).mono (subset_append_right _ _)

end

end Definitions

end CodeAtlas.Build
