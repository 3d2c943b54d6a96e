import CodeAtlas.Proofs.CallPlaces

/-!
# Definitions and what is around them

The first pass comes to the definitions of a file one after the other. For each it adds an edge to
it from the definition around it, or a ticket about that one. There are two exceptions. A variable
that is written again is passed over. A class right inside a function is registered, and nothing
tells where it belongs.
-/

namespace CodeAtlas.Build

open List Stepwise
open Script (Node)

namespace Definitions

variable {node : Json}

/-! ## The definitions of a tree -/

inductive Construct
  | classDef
  | function
  | stored
deriving DecidableEq

/-- A definition, inside another one or a file. -/
structure Definition where
  parent : Parent
  construct : Construct
  name : String

def Definition.id (d : Definition) : String := symbolId d.parent.id d.name

def Parent.isFunction (p : Parent) : Bool := p.isOf "Function" || p.isOf "Method"

def variablesIn (parent : Parent) (n : Node) : List Definition :=
  (n.targets.filterMap Node.storedName?).map (⟨parent, .stored, ·⟩)

mutual

/-- The definitions of a tree, in the order in which the first pass comes to them. A function inside
a function is not entered. -/
def found (parent : Parent) : Node → List Definition
  | .mk form span children =>
    match form with
    | .classDef name _ _ _ =>
      ⟨parent, .classDef, name⟩ :: foundAll ⟨symbolId parent.id name, .str "Class"⟩ children
    | .function name _ _ _ =>
      ⟨parent, .function, name⟩ ::
        if parent.isFunction then [] else
          foundAll ⟨symbolId parent.id name, .str (if parent.isOf "Class" then "Method"
            else "Function")⟩ children
    | .assign _ => variablesIn parent (.mk form span children)
    | .annAssign => variablesIn parent (.mk form span children)
    | _ => foundAll parent children

def foundAll (parent : Parent) : List Node → List Definition
  | [] => []
  | n :: rest => found parent n ++ foundAll parent rest

end

def foundIn (source : Source) (n : Node) : List Definition :=
  foundAll ⟨fileId source.name, .str "File"⟩ n.children

/-! ## What becomes of a definition -/

/-- An edge leads from a parent to a definition, or a ticket tells something about the parent. -/
inductive Accounted (parent id : String) (s s' : Survey) : Prop
  | edge {kind : String} (hkind : kind ∈ ["defines", "contains_member"])
      (hid : id ∈ s'.registry.keys) (h : s'.draft.edges =
        s.draft.edges ++ [.obj [("edge", .str kind), ("from", .str parent), ("to", .str id)]])
      (htickets : s'.draft.ambiguities = s.draft.ambiguities)
  | ticket {t : Ticket} {number : Nat} {resolver : Json} (hscope : t.scope = .str parent)
      (h : s'.draft.ambiguities = s.draft.ambiguities ++ [t.document number resolver])
      (hedges : s'.draft.edges = s.draft.edges)

def Definition.isHidden (d : Definition) : Bool := d.construct == .classDef && d.parent.isFunction

/-- What the first pass makes of a definition. -/
def Definition.Treated (d : Definition) (s s' : Survey) : Prop :=
  if d.construct = .stored ∧ d.id ∈ s.registry.keys then s' = s
  else if d.isHidden then ∃ node, s' = s.register d.id node
  else Accounted d.parent.id d.id s s'

def Parent.IsKnown (p : Parent) : Prop := ∃ kind ∈ ["File", "Class", "Function", "Method"],
    p.type = .str kind

lemma Parent.IsKnown.exists_id {p : Parent} (h : p.IsKnown) :
    ∃ id, p = ⟨id, "File"⟩ ∨ p = ⟨id, "Class"⟩ ∨ p = ⟨id, "Function"⟩ ∨ p = ⟨id, "Method"⟩ := by
  obtain ⟨id, type⟩ := p
  exact ⟨id, by simpa [IsKnown] using h⟩

/-! ## Doing the steps -/

section

variable {s : Survey} {known : List String} {ds : List Definition} {rest : List Step}
  {parent : Parent}

lemma accounted_link {relation parent id : String} (hrelation : relation ∈ enclosing)
    (hs : Registered known s.registry) (hparent : parent ∈ s.registry.keys)
    (hid : id ∈ s.registry.keys) :
    ∃ s', Survey.emitEdge scriptSetup relation parent id [] s = .ok () s' ∧
      s'.registry = s.registry ∧ Accounted parent id s s' := by
  have hends := Survey.ends_emitEdge scriptSetup relation [] hs hparent hid
  obtain ⟨_, s', hrun⟩ := hends.2 ready_scriptSetup
  refine ⟨s', hrun, ?_⟩
  cases hends.1 _ s' hrun with
  | @added edge hedge htruthy =>
    obtain ⟨kind, hkind, rfl⟩ : ∃ kind ∈ ["defines", "contains_member"], edge = .str kind := by
      simp only [enclosing, mem_cons, not_mem_nil, or_false] at hrelation
      rcases hrelation with rfl | rfl | rfl | rfl | rfl
      all_goals cases hedge
      · cases htruthy
      all_goals exact ⟨_, by simp, rfl⟩
    exact ⟨rfl, .edge hkind hid rfl rfl⟩
  | refused _ h =>
    obtain ⟨t, resolver, -, -, hscope, rfl⟩ := h
    exact ⟨rfl, .ticket hscope rfl rfl⟩
  | unmapped h =>
    obtain ⟨t, resolver, -, -, hscope, rfl⟩ := h
    exact ⟨rfl, .ticket hscope rfl rfl⟩

lemma accounted_note (kind expression reason parent confidence id : String) (s : Survey) :
    ∃ s', Survey.emitTicket scriptSetup kind expression reason parent confidence s = .ok () s' ∧
      s'.registry = s.registry ∧ Accounted parent id s s' := by
  have hends := Survey.ends_emitTicket scriptSetup kind expression reason parent confidence s
  obtain ⟨_, s', hrun⟩ := hends.2 ready_scriptSetup
  obtain ⟨t, resolver, -, -, hscope, rfl⟩ := hends.1 _ s' hrun
  exact ⟨_, hrun, rfl, .ticket hscope rfl rfl⟩

lemma Accounted.of_register {parent id other : String} {s' : Survey}
    (h : Accounted parent id (s.register other node) s') : Accounted parent id s s' := by
  cases h with
  | edge hkind hid h htickets => exact .edge hkind hid h htickets
  | ticket hscope h hedges => exact .ticket hscope h hedges

lemma treated_of_accounted {d : Definition} {s' : Survey}
    (hnew : d.construct = .stored → d.id ∉ s.registry.keys)
    (hplain : d.isHidden = false) (h : Accounted d.parent.id d.id s s') : d.Treated s s' := by
  rw [Definition.Treated, if_neg fun h ↦ hnew h.1 h.2, hplain]
  exact h

/-- A step that accounts for a definition. -/
def Step.Connects (parent id : String) : Step → Prop
  | .link relation source target => relation ∈ enclosing ∧ source = parent ∧ target = id
  | .note _ _ _ scope _ => scope = parent
  | _ => False

lemma exists_run_register {parent id : String} {step : Step} (hnode : Tells node)
    (hs : Registered known s.registry) (hparent : parent ∈ known)
    (hstep : step.Connects parent id) :
    ∃ s', runAll scriptSetup [.register id node, step] s = .ok () s' ∧ Accounted parent id s s' ∧
      Registered ([.register id node, step].filterMap Step.id? ++ known) s'.registry := by
  have hput : Registered (id :: known) (s.register id node).registry := hs.put id hnode
  rw [runAll_cons, runAll_singleton]
  cases step with
  | link relation source target =>
    obtain ⟨hrelation, rfl, rfl⟩ := hstep
    obtain ⟨s', hrun, hregistry, h⟩ := accounted_link hrelation hput
      (hput.there (mem_cons_of_mem _ hparent)) (hput.there mem_cons_self)
    exact ⟨s', hrun, h.of_register, hregistry ▸ hput⟩
  | note kind expression reason scope confidence =>
    obtain rfl := hstep
    obtain ⟨s', hrun, hregistry, h⟩ :=
      accounted_note kind expression reason scope confidence id (s.register id node)
    exact ⟨s', hrun, h.of_register, hregistry ▸ hput⟩
  | _ => cases hstep

/-- The steps for a definition do what is to be done for it. -/
def Settles (known : List String) (d : Definition) (block : List Step) : Prop :=
  ∀ s : Survey, Registered known s.registry → ∃ s', runAll scriptSetup block s = .ok () s' ∧
    d.Treated s s' ∧ Registered (block.filterMap Step.id? ++ known) s'.registry

section

variable {name : String}

lemma settles_register {d : Definition} {step : Step} (hnode : Tells node)
    (hparent : d.parent.id ∈ known)
    (hstep : step.Connects d.parent.id d.id) (hconstruct : d.construct ≠ .stored)
    (hplain : d.isHidden = false) : Settles known d [.register d.id node, step] := by
  intro s hs
  obtain ⟨s', hrun, h, hs'⟩ := exists_run_register hnode hs hparent hstep
  exact ⟨s', hrun, treated_of_accounted (fun h ↦ absurd h hconstruct) hplain h, hs'⟩

lemma settles_class (hparent : parent.id ∈ known) (hkind : parent.IsKnown) (hnode : Tells node) :
    Settles known ⟨parent, .classDef, name⟩
      (.register (symbolId parent.id name) node :: classLinks parent name) := by
  obtain ⟨around, rfl | rfl | rfl | rfl⟩ := hkind.exists_id
  · exact settles_register hnode hparent ⟨by simp [enclosing], rfl, rfl⟩ (by simp) rfl
  · exact settles_register hnode hparent rfl (by simp) rfl
  all_goals exact fun s hs ↦ ⟨_, rfl, ⟨node, rfl⟩, hs.put _ hnode⟩

lemma settles_nested (name : String) (parent : Parent) : Settles known ⟨parent, .function, name⟩
    [.note "nested_function_unmodeled" name "Nested definition skipped" parent.id
      "unresolved"] := by
  intro s hs
  obtain ⟨s', hrun, hregistry, h⟩ := accounted_note "nested_function_unmodeled" name
    "Nested definition skipped" parent.id "unresolved" (symbolId parent.id name) s
  rw [runAll_singleton]
  exact ⟨s', hrun, treated_of_accounted (fun h ↦ (by cases h)) rfl h, hregistry ▸ hs⟩

lemma settles_function (hparent : parent.id ∈ known) (hkind : parent.IsKnown)
    (hplain : parent.isFunction = false) (hnode : Tells node) :
    Settles known ⟨parent, .function, name⟩
      (.register (symbolId parent.id name) node :: functionLinks parent name) := by
  obtain ⟨around, rfl | rfl | rfl | rfl⟩ := hkind.exists_id
  · exact settles_register hnode hparent ⟨by simp [enclosing], rfl, rfl⟩ (by simp) rfl
  · exact settles_register hnode hparent ⟨by simp [enclosing], rfl, rfl⟩ (by simp) rfl
  all_goals cases hplain

lemma settles_once {relation : String} (hrelation : relation ∈ enclosing)
    (hparent : parent.id ∈ known) (hnode : Tells node) : Settles known ⟨parent, .stored, name⟩
      [.once relation parent.id (symbolId parent.id name) node] := by
  intro s hs
  rw [runAll_singleton]
  show ∃ s', (if (s.node? (symbolId parent.id name)).isNone then
      (modify fun s ↦ s.register (symbolId parent.id name) node) >>= fun _ ↦
        Survey.emitEdge scriptSetup relation parent.id (symbolId parent.id name) []
    else pure () : Surveying Unit) s = .ok () s' ∧ _
  have htaken : (s.node? (symbolId parent.id name)).isSome = true ↔
    symbolId parent.id name ∈ s.registry.keys := Survey.isSome_node?_iff hs
  by_cases hid : symbolId parent.id name ∈ s.registry.keys
  · rw [if_neg (by simpa [Option.isSome_iff_ne_none] using htaken.2 hid)]
    refine ⟨s, rfl, ?_, hs.tells, cons_subset.2 ⟨hid, hs.there⟩⟩
    rw [Definition.Treated, if_pos ⟨rfl, hid⟩]
  · obtain ⟨s', hrun, h, hs'⟩ := exists_run_register hnode hs hparent
      (show (Step.link relation parent.id _).Connects parent.id (symbolId parent.id name) from
        ⟨hrelation, rfl, rfl⟩)
    rw [if_pos (by simpa [← htaken] using hid)]
    rw [runAll_cons, runAll_singleton] at hrun
    exact ⟨s', hrun, treated_of_accounted (fun _ ↦ hid) rfl h, hs'⟩

end

/-! ## The steps of a tree -/

/-- Steps treat some definitions in order, all of them or those before a failure. -/
def Treats (known : List String) (ds : List Definition) (steps : List Step) : Prop :=
  ∀ s : Survey, Registered known s.registry → ∃ done s', done <+: ds ∧
    Through Definition.Treated done s s' ∧
    (runAll scriptSetup steps s = .ok () s' ∧ done = ds ∧ Registered known s'.registry ∨
      ¬Safe steps ∧ ∃ f, runAll scriptSetup steps s = .error f s')

lemma treats_nil (known : List String) : Treats known [] [] :=
  fun s hs ↦ ⟨[], s, nil_prefix, .nil s, .inl ⟨rfl, rfl, hs⟩⟩

lemma Treats.append {ds' : List Definition} {steps : List Step} (h : Treats known ds steps)
    (hrest : Treats known ds' rest) : Treats known (ds ++ ds') (steps ++ rest) := by
  intro s hs
  obtain ⟨done, t, hdone, hthrough, ⟨hrun, rfl, ht⟩ | ⟨hfailing, f, hrun⟩⟩ := h s hs
  · obtain ⟨done', s', hdone', hthrough', hend⟩ := hrest t ht
    refine ⟨_, s', (prefix_append_right_inj _).2 hdone', hthrough.append hthrough', ?_⟩
    rw [runAll_append, bind_of_ok hrun]
    rcases hend with ⟨hrun', rfl, hs'⟩ | ⟨hfailing, hrun'⟩
    · exact .inl ⟨hrun', rfl, hs'⟩
    · exact .inr ⟨fun hsafe ↦ hfailing (safe_append.1 hsafe).2, hrun'⟩
  · refine ⟨done, t, hdone.trans (prefix_append _ _), hthrough, .inr ⟨?_, f, ?_⟩⟩
    · exact fun hsafe ↦ hfailing (safe_append.1 hsafe).1
    · rw [runAll_append, bind_of_error hrun]

lemma Settles.then {d : Definition} {block : List Step} (h : Settles known d block)
    (hrest : Treats (block.filterMap Step.id? ++ known) ds rest) : Treats known (d :: ds)
    (block ++ rest) := by
  intro s hs
  obtain ⟨t, hrun, htreated, ht⟩ := h s hs
  obtain ⟨done, s', hdone, hthrough, hend⟩ := hrest t ht
  refine ⟨_, s', cons_prefix_cons.2 ⟨rfl, hdone⟩, .cons htreated hthrough, ?_⟩
  rw [runAll_append, bind_of_ok hrun]
  rcases hend with ⟨hrun, rfl, hs'⟩ | ⟨hfailing, hrun⟩
  · exact .inl ⟨hrun, rfl, hs'.mono (subset_append_right _ _)⟩
  · exact .inr ⟨fun hsafe ↦ hfailing (safe_append.1 hsafe).2, hrun⟩

lemma treats_orFail {α : Type} {x : Except Fault α} {next : α → List Step}
    (h : ∀ a, x = .ok a → Treats known ds (next a)) : Treats known ds (orFail x next) := by
  cases x with
  | ok a => exact h a rfl
  | error f =>
    exact fun s _ ↦ ⟨[], s, nil_prefix, .nil s, .inr ⟨by simp [orFail, Step.isFail], f, rfl⟩⟩

lemma functionType_eq (parent : Parent) : functionType scriptSetup parent =
    .ok (.str (if parent.isOf "Class" then "Method" else "Function")) := by
  rw [functionType]
  split <;> rfl

lemma treats_variableSteps (hparent : parent.id ∈ known) (definition : String) (n : Node) :
    Treats known (variablesIn parent n) (variableSteps scriptSetup parent definition n) := by
  rw [variablesIn, variableSteps]
  induction n.targets.filterMap Node.storedName? with
  | nil => exact treats_nil known
  | cons name names ih =>
    rw [map_cons, flatMap_cons, ← singleton_append]
    refine .append (treats_orFail fun type _ ↦ ?_) ih
    refine (settles_once ?_ hparent (describes_variableNode ..).introduces.toTells).then
      (treats_nil _)
    split <;> simp [enclosing]

end

mutual

lemma treats_steps {known : List String} {parent : Parent} (hparent : parent.id ∈ known)
    (hkind : parent.IsKnown) (depth : Nat) : (n : Node) →
    Treats known (found parent n) (steps scriptSetup parent depth n)
  | .mk form span children => by
    have hinner {name kind : String} (hk : kind ∈ ["Class", "Function", "Method"]) (node : Json)
        (links : List Step) (depth : Nat) :
        Treats ((.register (symbolId parent.id name) node :: links).filterMap Step.id? ++ known)
          (foundAll ⟨symbolId parent.id name, .str kind⟩ children)
          (stepsAll scriptSetup ⟨symbolId parent.id name, .str kind⟩ depth children) := by
      have hknown : Parent.IsKnown ⟨symbolId parent.id name, .str kind⟩ :=
        ⟨kind, mem_cons_of_mem _ hk, rfl⟩
      exact treats_stepsAll (mem_append_left _ mem_cons_self) hknown depth children
    unfold found steps
    refine treats_orFail fun _ _ ↦ ?_
    cases form with
    | classDef name bases keywords body =>
      refine treats_orFail fun type htype ↦ ?_
      obtain rfl : "Class" = type := Except.ok.inj htype
      exact (settles_class hparent hkind (describes_classNode ..).introduces.toTells).then
        (hinner (by simp) _ _ _)
    | function name isAsync body decorators =>
      dsimp only
      rw [functionSteps, ← Parent.isFunction]
      cases hfunction : parent.isFunction with
      | true => exact (settles_nested name parent).then (treats_nil _)
      | false =>
        refine treats_orFail fun type htype ↦ treats_orFail fun node hnode ↦ ?_
        obtain rfl := Except.ok.inj ((functionType_eq parent).symm.trans htype)
        have htells := (describes_functionNode hnode).introduces.toTells
        refine (settles_function hparent hkind hfunction htells).then (hinner ?_ _ _ _)
        split <;> simp
    | assign count => exact treats_variableSteps hparent _ _
    | annAssign => exact treats_variableSteps hparent _ _
    | _ => exact treats_stepsAll hparent hkind _ children

lemma treats_stepsAll {known : List String} {parent : Parent} (hparent : parent.id ∈ known)
    (hkind : parent.IsKnown) (depth : Nat) : (ns : List Node) →
    Treats known (foundAll parent ns) (stepsAll scriptSetup parent depth ns)
  | [] => treats_nil known
  | n :: ns => (treats_steps hparent hkind depth n).append (treats_stepsAll hparent hkind depth ns)

end

/-- The first pass over a file comes to its definitions in order, until it fails or to the end. Each
is treated as it is to be: an edge from what is around it or a ticket about that accounts for it,
unless it is a variable that is known or a class right inside a function. -/
theorem definitions_accounted_for (issued : Nat) (sources : List Source) {source : Source}
    {text : String} {n : Node} (htree : source.tree = .ok (text, n)) :
    let s := firstPass scriptSetup issued sources
    ∃ node done s' logs, done <+: foundIn source n ∧
      Through Definition.Treated done (s.register (fileId source.name) node) s' ∧
      firstPass scriptSetup issued (sources ++ [source]) = { s' with draft :=
        { s'.draft with logs } } ∧
      ((∀ child ∈ n.children, Passable 3 child) → done = foundIn source n) := by
  intro s
  have hput : Registered [fileId source.name]
      (s.register (fileId source.name) (fileNode source text (.str "File") n)).registry :=
    (filed_firstPass ready_scriptSetup issued sources).tells.put _ (introduces_fileNode ..).toTells
  have hfile : Parent.IsKnown ⟨fileId source.name, .str "File"⟩ := ⟨"File", by simp, rfl⟩
  obtain ⟨done, s', hdone, hthrough, hrun⟩ :=
    treats_stepsAll mem_cons_self hfile 3 n.children _ hput
  have hvisit : visitFile scriptSetup source text n s =
      runAll scriptSetup (stepsAll scriptSetup ⟨fileId source.name, .str "File"⟩ 3 n.children)
        (s.register (fileId source.name) (fileNode source text (.str "File") n)) := by
    rw [visitFile]
    rfl
  have hpass : firstPass scriptSetup issued (sources ++ [source]) =
      s.walk "error" source (visitFile scriptSetup source text n) := by
    rw [firstPass, foldl_append, foldl_cons, foldl_nil, Survey.addDefinitions, htree]
    rfl
  rw [Survey.walk, hvisit] at hpass
  rcases hrun with ⟨hrun, rfl, -⟩ | ⟨hfailing, f, hrun⟩
  · rw [hrun] at hpass
    exact ⟨_, _, s', s'.draft.logs, hdone, hthrough, hpass, fun _ ↦ rfl⟩
  · rw [hrun] at hpass
    exact ⟨_, done, s', _, hdone, hthrough, hpass, fun h ↦ absurd (safe_stepsAll _ 3 _ h) hfailing⟩

/-- A file with a class, a method and a variable that is written twice. -/
def shelfSource : Source :=
  ⟨"a.py", "/p/a.py",
    .ok "class Shelf:\n    size = 1\n    size = 2\n\n    def fill(self):\n        pass\n"⟩

theorem definitions_accounted_for_shelf : ∃ text n, shelfSource.tree = .ok (text, n) ∧
    (foundIn shelfSource n).map Definition.id =
      ["a.py::Shelf", "a.py::Shelf::size", "a.py::Shelf::size", "a.py::Shelf::fill"] ∧
    ∃ node s' logs, Through Definition.Treated (foundIn shelfSource n)
        ((firstPass scriptSetup 0 []).register (fileId shelfSource.name) node) s' ∧
      firstPass scriptSetup 0 [shelfSource] = { s' with draft := { s'.draft with logs } } := by
  obtain ⟨text, n, htree, hids, hfine⟩ := exists_tree_of_any shelfSource
    (fun n ↦ (foundIn shelfSource n).map Definition.id =
        ["a.py::Shelf", "a.py::Shelf::size", "a.py::Shelf::size", "a.py::Shelf::fill"] ∧
      ∀ child ∈ n.children, 3 + 4 * child.depth + 1 ≤ Script.Walk.maxSteps ∧
        child.hasTooLong = false) (by decide +kernel)
  obtain ⟨node, done, s', logs, -, hthrough, hpass, hdone⟩ := definitions_accounted_for 0 [] htree
  obtain rfl := hdone fun child hchild ↦ ⟨(hfine child hchild).1, (hfine child hchild).2⟩
  exact ⟨text, n, htree, hids, node, s', logs, hthrough, hpass⟩

/-- A file with a class inside a function. -/
def hiddenSource : Source := ⟨"a.py", "/p/a.py", .ok "def f():\n    class C:\n        pass\n"⟩

/-- Nothing tells where the class belongs. -/
theorem class_unaccounted_for :
    let draft := (firstPass scriptSetup 0 [hiddenSource]).draft
    draft.nodes.map (told "id") = ["a.py", "a.py::f", "a.py::f::C"] ∧
    draft.edges.map (told "to") = ["a.py::f"] ∧ draft.ambiguities.isEmpty = true := by
  decide +kernel

end Definitions

end CodeAtlas.Build
