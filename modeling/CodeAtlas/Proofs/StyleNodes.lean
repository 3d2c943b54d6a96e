import CodeAtlas.Proofs.CommentLines
import CodeAtlas.Proofs.NamedThings

/-!
# What a stylesheet names

The rules of a mapping name things in a text, match after match. Only the first thing of an id
becomes a node, with the line and the state of its own match. A file is read up to its last thing,
unless some document is not of the form that is asked for.
-/

namespace CodeAtlas.Build.StyleGraph

open List Fallible Stepwise Sketch Json
open Stylesheet (Match Finder findAll stripComments)

variable {n : Json} {word : String}

/-! ## Things -/

/-- What a match names. -/
structure Thing where
  type : Json
  name : String
  place : Match

namespace Thing

def id (t : Thing) (file : String) : String :=
  if t.type.same (.str "Stylesheet") then t.name else scopedId (.str file) t.type t.name

def details (t : Thing) : List (String × Json) :=
  [("line_start", .int t.place.line), ("attributes", attributesOf t.place)]

def document (t : Thing) (file : String) : Json :=
  nodeDocument t.type t.name (t.id file) "heuristic" t.details

/-- The first of some things with its id. -/
def IsFirst (file : String) (ts : List Thing) (t : Thing) : Prop :=
  ts.find? (fun x ↦ x.id file = t.id file) = some t

end Thing

variable {o : Outline} {rule : Json} {s s' : Sketch} {ts us : List Thing} {file : String}

/-- What a rule names by a match, if it asks for a node. -/
def thing? (rule : Json) (m : Match) : Option Thing := do
  let type ← rule.member? "emit_node"
  let number ← rule.member? "name_group"
  let name ← (group m number).toOption
  return ⟨type, name, m⟩

def finderOf? (rule : Json) : Option Finder :=
  ((rule.member? "regex").bind Json.asStr?).bind (Table.get? Stylesheet.finders)

def matchesFor (rule : Json) (cs : List Char) : List Match :=
  (finderOf? rule).elim [] (findAll · cs)

def thingsFor (rule : Json) (cs : List Char) : List Thing :=
  (matchesFor rule cs).flatMap fun m ↦ (thing? rule m).toList

/-- The things that a text names, in the order in which they are found. -/
def things (o : Outline) (text : String) : List Thing :=
  (rulesOf o.mapping).flatMap (thingsFor · (stripComments text.toList))

lemma matchesFor_of_ok {pattern : Json} {cs : List Char} {found : List Match}
    (hpattern : rule.need "regex" = .ok pattern) (h : matchesOf pattern cs = .ok found) :
    matchesFor rule cs = found := by
  rw [matchesFor, finderOf?, need_eq_ok.1 hpattern]
  cases pattern with
  | str p =>
    rw [matchesOf] at h
    split at h
    next hfinder => exact (congrArg (Option.elim · _ _) hfinder).trans (Except.ok.inj h)
    next hfinder => exact (congrArg (Option.elim · _ _) hfinder).trans (Except.ok.inj h)
  | _ => cases h

lemma exists_finder {text : String} {t : Thing} (ht : t ∈ things o text) :
    ∃ e ∈ Stylesheet.finders, t.place ∈ findAll e.2 (stripComments text.toList) := by
  obtain ⟨rule, -, ht⟩ := mem_flatMap.1 ht
  obtain ⟨m, hm, ht⟩ := mem_flatMap.1 ht
  have hplace : t.place = m := by
    rw [Option.mem_toList, thing?] at ht
    simp only [Option.bind_eq_bind, Option.bind_eq_some_iff] at ht
    obtain ⟨type, -, number, -, name, -, ht⟩ := ht
    rw [← Option.some.inj ht]
  rw [matchesFor] at hm
  cases hfinder : finderOf? rule with
  | some finder =>
    rw [hfinder] at hm
    obtain ⟨p, -, hp⟩ := Option.bind_eq_some_iff.1 hfinder
    exact ⟨(p, finder), Table.mem_of_get? hp, hplace ▸ hm⟩
  | none =>
    rw [hfinder] at hm
    cases hm

/-! ## Naming things -/

def addThing (s : Sketch) (t : Thing) : Sketch :=
  s.addNode t.type t.name (s.idFor "Stylesheet" t.type t.name) "heuristic" t.details

/-- Two sketches of the same file that differ at most in tickets and edges. -/
structure Same (s s' : Sketch) : Prop where
  nodes : s'.draft.nodes = s.draft.nodes
  ids : s'.nodeIds = s.nodeIds
  file : s'.file = s.file
  logs : s'.draft.logs = s.draft.logs

lemma Same.addThing (h : Same s s') (t : Thing) : Same (addThing s t) (addThing s' t) := by
  have hid : s'.idFor "Stylesheet" t.type t.name = s.idFor "Stylesheet" t.type t.name := by
    rw [idFor, idFor, fileJson, fileJson, h.file]
  rw [StyleGraph.addThing, StyleGraph.addThing, hid, addNode, addNode, h.ids]
  split
  · exact h
  · exact ⟨congrArg (· ++ _) h.nodes, rfl, h.file, h.logs⟩

lemma Same.foldl (h : Same s s') (ts : List Thing) :
    Same (ts.foldl StyleGraph.addThing s) (ts.foldl StyleGraph.addThing s') := by
  induction ts generalizing s s' with
  | nil => exact h
  | cons t ts ih => exact ih (h.addThing t)

/-- From one sketch to another by naming things, in their order. -/
def Names (ts : List Thing) (s s' : Sketch) : Prop := Same (ts.foldl addThing s) s'

lemma Names.append {s'' : Sketch} (h : Names ts s s') (h' : Names us s' s'') :
    Names (ts ++ us) s s'' := by
  have hfold := h.foldl us
  rw [Names, foldl_append]
  exact ⟨h'.nodes.trans hfold.nodes, h'.ids.trans hfold.ids, h'.file.trans hfold.file,
    h'.logs.trans hfold.logs⟩

lemma names_nil (s : Sketch) : Names [] s s := ⟨rfl, rfl, rfl, rfl⟩

lemma mem_foldl_addThing (hs : s.file = some file) (ts : List Thing) :
    (ts.foldl addThing s).file = some file ∧
    (∀ id, id ∈ (ts.foldl addThing s).nodeIds ↔ id ∈ s.nodeIds ∨ ∃ t ∈ ts, t.id file = id) ∧
    ∀ n, n ∈ (ts.foldl addThing s).draft.nodes ↔ n ∈ s.draft.nodes ∨
      ∃ t : Thing, t.IsFirst file ts ∧ t.id file ∉ s.nodeIds ∧ n = t.document file := by
  induction ts using List.reverseRecOn with
  | nil => simp [Thing.IsFirst, hs]
  | append_singleton ts u ih =>
    obtain ⟨hfile, hids, hnodes⟩ := ih
    rw [foldl_append, foldl_cons, foldl_nil]
    generalize ts.foldl addThing s = named at hfile hids hnodes
    have hadd : addThing named u = named.addNode u.type u.name (u.id file) "heuristic"
        u.details := by
      rw [addThing, idFor, fileJson, hfile]
      rfl
    have hfirst (t : Thing) : t.IsFirst file (ts ++ [u]) ↔
        t.IsFirst file ts ∨ (∀ x ∈ ts, x.id file ≠ t.id file) ∧ u = t := by
      simp only [Thing.IsFirst, find?_append, Option.or_eq_some_iff, find?_eq_none, find?_singleton,
        decide_eq_true_eq]
      refine or_congr_right (and_congr_right fun _ ↦ ⟨fun h ↦ ?_, fun h ↦ ?_⟩)
      · split at h
        · exact Option.some.inj h
        · cases h
      · rw [h, if_pos rfl]
    rw [hadd, addNode]
    split
    next htaken =>
      refine ⟨hfile, fun id ↦ ?_, fun n ↦ ?_⟩ <;> grind
    next hfree =>
      refine ⟨hfile, fun id ↦ ?_, fun n ↦ ?_⟩
      · grind
      · have hmem : n ∈ named.draft.nodes ++ [u.document file] ↔ n ∈ named.draft.nodes ∨
            n = u.document file := by
          rw [mem_append, mem_singleton]
        refine hmem.trans ?_
        grind

/-! ## Reading a file -/

/-- A number of a group of a match. -/
def isGroup : Json → Bool
  | .int 0 => true
  | .int 1 => true
  | _ => false

/-- A rule of the form that is asked for. -/
def isUsable (rule : Json) : Bool :=
  ((rule.member? "regex").bind Json.asStr?).isSome &&
    (rule.member? "defines_edge").all (fun edge ↦ edge.asStr?.isSome) &&
    (rule.member? "target_group").all isGroup && (rule.member? "name_group").all isGroup

/-- Documents of the form that is asked for. -/
structure Orderly (o : Outline) : Prop where
  strict : ∃ strict, o.instructions.getD "css_strict_rules" (.obj []) = .ok strict ∧
    ∀ word ∈ ["media_queries", "keyframes"], ∃ rule value,
      strict.getD word (.obj []) = .ok rule ∧ rule.get "never_emit_node" = .ok value
  patterns : ∃ members, o.mapping.getD "patterns" (.obj []) = .ok (.obj members)
  rules : ∀ rule ∈ rulesOf o.mapping, isUsable rule = true
  schema : ∀ e ∈ o.rules, isTextual e.2 = true
  resolver : ∃ resolver, resolverOf o.instructions = .ok resolver

lemma orderly_of_outlineOf (h : outlineOf Catalog.cssInstructions Catalog.cssMapping coreRules =
    .ok o) : Orderly o ∧ o.mapping = Catalog.cssMapping := by
  cases h
  refine ⟨⟨⟨_, rfl, fun word hword ↦ ?_⟩, ⟨_, rfl⟩, ?_, isTextual_coreRules, ⟨_, rfl⟩⟩, rfl⟩
  · simp only [mem_cons, not_mem_nil, or_false] at hword
    rcases hword with rfl | rfl <;> exact ⟨_, _, rfl, rfl⟩
  · show ∀ rule ∈ rulesOf Catalog.cssMapping, isUsable rule = true
    decide +kernel

/-- A walk that names things in their order, and none but the first of them if it fails. -/
structure Naming {α : Type} (o : Outline) (ts : List Thing) (x : Sketching α) (s : Sketch) :
    Prop where
  ends : Ends (Orderly o) x s fun _ s' ↦ Names ts s s'
  fails : Fails x s fun s' ↦ ∃ done, done <+: ts ∧ Names done s s'

namespace Naming

variable {α β : Type} {x : Sketching α} {f : α → Sketching β}

lemma pure (a : α) (s : Sketch) : Naming o [] (Pure.pure a) s := ⟨.pure (names_nil s), .pure a⟩

lemma of_modify {g : Sketch → Sketch} (h : Names ts s (g s)) : Naming o ts (modify g) s :=
  ⟨.of_modify h, .of_modify g⟩

lemma get_bind {f : Sketch → Sketching β} (h : Naming o ts (f s) s) : Naming o ts (get >>= f) s :=
  ⟨.get_bind h.ends, .get_bind h.fails⟩

lemma lift_bind {x : Except Fault α} (hx : Orderly o → ∃ a, x = .ok a)
    (hf : ∀ a, x = .ok a → Naming o ts (f a) s) : Naming o ts ((liftM x : Sketching α) >>= f) s :=
  ⟨.lift_bind hx fun a ha ↦ (hf a ha).ends,
    .lift_bind ⟨[], nil_prefix, names_nil s⟩ fun a ha ↦ (hf a ha).fails⟩

lemma bind (hx : Naming o ts x s) (hf : ∀ a s', Naming o us (f a) s') :
    Naming o (ts ++ us) (x >>= f) s := by
  refine ⟨.bind hx.ends fun a s' _ hs' ↦ (hf a s').ends.imp (fun h ↦ h) fun _ _ _ h ↦ hs'.append h,
    fun e s'' hrun ↦ ?_⟩
  cases hfirst : x s with
  | ok a s' =>
    rw [bind_of_ok hfirst] at hrun
    obtain ⟨done, hdone, hnames⟩ := (hf a s').fails e s'' hrun
    exact ⟨ts ++ done, (prefix_append_right_inj ts).2 hdone, (hx.ends.1 a s' hfirst).append hnames⟩
  | error e' s' =>
    rw [bind_of_error hfirst] at hrun
    cases hrun
    obtain ⟨done, hdone, hnames⟩ := hx.fails _ _ hfirst
    exact ⟨done, hdone.trans (prefix_append ts us), hnames⟩

lemma nil_bind (hx : Naming o [] x s) (hf : ∀ a s', Naming o ts (f a) s') :
    Naming o ts (x >>= f) s := hx.bind hf

lemma bind_nil (hx : Naming o ts x s) (hf : ∀ a s', Naming o [] (f a) s') :
    Naming o ts (x >>= f) s := by
  have h := hx.bind hf
  rwa [append_nil] at h

lemma forIn {ι : Type} {xs : List ι} {g : ι → Sketching Unit} {l : ι → List Thing}
    (h : ∀ x ∈ xs, ∀ s, Naming o (l x) (g x) s) (s : Sketch) :
    Naming o (xs.flatMap l) (ForIn.forIn xs PUnit.unit fun x _ ↦ do g x; return .yield ⟨⟩) s := by
  induction xs generalizing s with
  | nil => exact .pure _ s
  | cons x xs ih =>
    rw [forall_mem_cons] at h
    rw [List.forIn_cons, bind_assoc]
    exact (h.1 s).bind fun _ s' ↦ ih h.2 s'

end Naming

lemma naming_emitTicket (kind : String) (expression : Json) (reason : String) (scope : Json)
    (confidence : String) (s : Sketch) :
    Naming o [] (emitTicket o kind expression reason scope confidence) s := by
  have hissue : Naming o [] (modify fun s ↦ { s with draft := s.draft.issue }) s :=
    .of_modify ⟨rfl, rfl, rfl, rfl⟩
  exact hissue.nil_bind fun _ s' ↦ .lift_bind (fun h ↦ h.resolver) fun resolver _ ↦
    .of_modify ⟨rfl, rfl, rfl, rfl⟩

lemma naming_emitEdge {edge : Json} (hedge : Orderly o → ∃ name, edge = .str name)
    (source target : String)
    (type : Json) (s : Sketch) :
    Naming o [] (emitEdge o edge source target "Stylesheet" type) s := by
  refine .lift_bind (fun h ↦ ?_) fun key _ ↦ .get_bind ?_
  · obtain ⟨name, rfl⟩ := hedge h
    exact ⟨_, rfl⟩
  · split
    · exact naming_emitTicket ..
    · refine .lift_bind (fun h ↦ ?_) fun allowed _ ↦ ?_
      · obtain ⟨name, rfl⟩ := hedge h
        exact ⟨_, allows_eq h.schema name _ _⟩
      · split
        · exact naming_emitTicket ..
        · split
          · exact Naming.of_modify (g := fun _ ↦ _) ⟨rfl, rfl, rfl, rfl⟩
          · exact .pure _ s

lemma naming_emitForbidden {strict : Json} (hstrict : Orderly o → ∃ rule value,
    strict.getD word (.obj []) = .ok rule ∧ rule.get "never_emit_node" = .ok value)
    (kind reason : String) (finder : Finder) (cs : List Char) (s : Sketch) :
    Naming o [] (emitForbidden o strict word kind reason finder cs) s := by
  refine .lift_bind (fun h ↦ ?_) fun rule hrule ↦ .lift_bind (fun h ↦ ?_) fun forbidden _ ↦ ?_
  · obtain ⟨rule, _, hrule, -⟩ := hstrict h
    exact ⟨rule, hrule⟩
  · obtain ⟨_, value, hrule', hvalue⟩ := hstrict h
    cases hrule.symm.trans hrule'
    exact ⟨value, hvalue⟩
  · split
    · have hloop : Naming o ((findAll finder cs).flatMap fun _ ↦ []) _ s :=
        .forIn (g := fun m ↦ note o kind (.str (String.ofList m.found.whole)) reason)
          (fun m _ s ↦ .get_bind (naming_emitTicket ..)) s
      rw [flatMap_eq_nil_iff.2 fun _ _ ↦ rfl] at hloop
      exact hloop.bind_nil fun _ s' ↦ .pure _ s'
    · exact .pure _ s

lemma exists_regex (h : isUsable rule = true) :
    ∃ name, rule.member? "regex" = some (.str name) := by
  simp only [isUsable, Bool.and_eq_true] at h
  obtain ⟨name, hname⟩ := Option.isSome_iff_exists.1 h.1.1.1
  obtain ⟨pattern, hpattern, hname⟩ := Option.bind_eq_some_iff.1 hname
  cases pattern with
  | str name => exact ⟨name, hpattern⟩
  | _ => cases hname

lemma need_of_definedEdge {edge : Json} (h : definedEdge rule = .ok (some edge)) :
    rule.need "defines_edge" = .ok edge := by
  simp only [definedEdge, bind_eq_ok] at h
  obtain ⟨holds, -, h⟩ := h
  split at h
  · obtain ⟨edge', hedge, h⟩ := bind_eq_ok.1 h
    cases h
    exact hedge
  · cases h

section Rule

variable (hrule : Orderly o → isUsable rule = true)
include hrule

lemma exists_holds (h : Orderly o) (word : String) : ∃ holds, rule.holds word = .ok holds := by
  have husable := hrule h
  cases rule with
  | obj m => exact ⟨_, rfl⟩
  | _ => cases husable

lemma exists_need (h : Orderly o) (hholds : rule.holds word = .ok true) :
    ∃ value, rule.need word = .ok value := by
  have husable := hrule h
  cases rule with
  | obj m =>
    obtain ⟨value, hvalue⟩ := Option.isSome_iff_exists.1 (Except.ok.inj hholds)
    exact ⟨value, need_eq_ok.2 hvalue⟩
  | _ => cases husable

lemma exists_group {number : Json} (hword : word ∈ ["target_group", "name_group"])
    (h : Orderly o) (hnumber : rule.need word = .ok number) (m : Match) :
    ∃ value, group m number = .ok value := by
  have husable := hrule h
  simp only [isUsable, Bool.and_eq_true, Option.all_eq_true] at husable
  have hgroup : isGroup number = true := by
    simp only [mem_cons, not_mem_nil, or_false] at hword
    rcases hword with rfl | rfl
    · exact husable.1.2 number (need_eq_ok.1 hnumber)
    · exact husable.2 number (need_eq_ok.1 hnumber)
  unfold isGroup at hgroup
  split at hgroup
  · exact ⟨_, rfl⟩
  · exact ⟨_, rfl⟩
  · cases hgroup

lemma naming_nameThing (t : Thing) (s : Sketch) :
    Naming o [t]
      (nameThing o "Stylesheet" t.type t.name "heuristic" t.details (definedEdge rule)) s := by
  have hadd : Naming o [t] (modify fun s' ↦ s'.addNode t.type t.name
      (s.idFor "Stylesheet" t.type t.name) "heuristic" t.details) s :=
    .of_modify ⟨rfl, rfl, rfl, rfl⟩
  refine .get_bind (hadd.bind_nil fun _ s' ↦ .lift_bind (fun h ↦ ?_) fun edge? hedge ↦ ?_)
  · obtain ⟨holds, hholds⟩ := exists_holds hrule h "defines_edge"
    rw [definedEdge, hholds]
    cases holds with
    | false => exact ⟨none, rfl⟩
    | true =>
      obtain ⟨edge, hedge⟩ := exists_need hrule h hholds
      exact ⟨some edge, by rw [hedge]; rfl⟩
  · cases edge? with
    | none => exact .pure _ s'
    | some edge =>
      refine .get_bind (naming_emitEdge (fun h ↦ ?_) _ _ _ s')
      have husable := hrule h
      simp only [isUsable, Bool.and_eq_true, Option.all_eq_true] at husable
      have htext := husable.1.1.2 edge (need_eq_ok.1 (need_of_definedEdge hedge))
      cases edge with
      | str name => exact ⟨name, rfl⟩
      | _ => cases htext

lemma naming_emitMatch (m : Match) (s : Sketch) :
    Naming o (thing? rule m).toList (emitMatch o rule m) s := by
  refine .lift_bind (fun h ↦ exists_holds hrule h _) fun emits _ ↦ ?_
  extract_lets emitNamed
  have hnamed (u : Unit) (s : Sketch) : Naming o (thing? rule m).toList (emitNamed u) s := by
    refine .lift_bind (fun h ↦ exists_holds hrule h _) fun emits hemits ↦ ?_
    split
    next hyes =>
      subst hyes
      refine .lift_bind (fun h ↦ exists_holds hrule h _) fun named hnamed ↦ ?_
      split
      next hyes =>
        subst hyes
        refine .lift_bind (fun h ↦ exists_need hrule h hnamed) fun number hnumber ↦
          .lift_bind (fun h ↦ exists_group hrule (by simp) h hnumber m) fun value hvalue ↦
            .lift_bind (fun h ↦ exists_need hrule h hemits) fun type htype ↦ ?_
        have hthing : thing? rule m = some ⟨type, value, m⟩ := by
          rw [thing?, need_eq_ok.1 htype, need_eq_ok.1 hnumber]
          simp [hvalue, Except.toOption]
        rw [hthing, emitNode, emitNode_bind_linkTo]
        exact naming_nameThing hrule ⟨type, value, m⟩ s
      next hno =>
        obtain rfl := Bool.eq_false_of_not_eq_true hno
        have hthing : thing? rule m = none := by simp [thing?, member?_of_holds hnamed]
        rw [hthing]
        exact .pure _ s
    next hno =>
      obtain rfl := Bool.eq_false_of_not_eq_true hno
      have hthing : thing? rule m = none := by simp [thing?, member?_of_holds hemits]
      rw [hthing]
      exact .pure _ s
  split
  · refine .lift_bind (fun h ↦ exists_holds hrule h _) fun targets htargets ↦ ?_
    split
    next hyes =>
      subst hyes
      refine .lift_bind (fun h ↦ exists_need hrule h htargets) fun number hnumber ↦
        .lift_bind (fun h ↦ exists_group hrule (by simp) h hnumber m) fun target _ ↦ ?_
      have hticket : Naming o [] (note o "import_target_unresolved" target
          "Imported stylesheet not proven as file") s := .get_bind (naming_emitTicket ..)
      exact hticket.nil_bind hnamed
    · exact hnamed () s
  · exact hnamed () s

lemma naming_applyRule (cs : List Char) (s : Sketch) :
    Naming o (thingsFor rule cs) (applyRule o cs rule) s := by
  refine .lift_bind (fun h ↦ ?_) fun pattern hpattern ↦
    .lift_bind (fun h ↦ ?_) fun found hfound ↦ ?_
  · obtain ⟨name, hname⟩ := exists_regex (hrule h)
    exact ⟨_, need_eq_ok.2 hname⟩
  · obtain ⟨name, hname⟩ := exists_regex (hrule h)
    cases (need_eq_ok.1 hpattern).symm.trans hname
    rw [matchesOf]
    split <;> exact ⟨_, rfl⟩
  · rw [thingsFor, matchesFor_of_ok hpattern hfound]
    exact (Naming.forIn (fun m _ s ↦ naming_emitMatch hrule m s) s).bind_nil fun _ s' ↦ .pure _ s'

end Rule

lemma naming_read (text : String) (s : Sketch) :
    Naming o (things o text) ((reader o).read text) s := by
  refine .lift_bind (fun h ↦ ?_) fun strict hstrict ↦ ?_
  · obtain ⟨strict, hstrict, -⟩ := h.strict
    exact ⟨strict, hstrict⟩
  · have hwords {word : String} (hword : word ∈ ["media_queries", "keyframes"]) (h : Orderly o) :
        ∃ rule value, strict.getD word (.obj []) = .ok rule ∧
          rule.get "never_emit_node" = .ok value := by
      obtain ⟨strict', hstrict', hwords⟩ := h.strict
      cases hstrict.symm.trans hstrict'
      exact hwords word hword
    refine .nil_bind (naming_emitForbidden (hwords (by simp)) _ _ _ _ s) fun _ s ↦
      .nil_bind (naming_emitForbidden (hwords (by simp)) _ _ _ _ s) fun _ s ↦
        .lift_bind (fun h ↦ ?_) fun patterns hpatterns ↦
        .lift_bind (fun h ↦ ?_) fun members hmembers ↦ ?_
    · obtain ⟨members, hmembers⟩ := h.patterns
      exact ⟨_, hmembers⟩
    · obtain ⟨members, hmembers⟩ := h.patterns
      cases hpatterns.symm.trans hmembers
      exact ⟨members, rfl⟩
    · rw [things, rulesOf_eq hpatterns hmembers, flatMap_map]
      refine (Naming.forIn (fun e he s ↦ ?_) s).bind_nil fun _ s' ↦ .pure _ s'
      exact naming_applyRule
        (fun h ↦ h.rules e.2 (rulesOf_eq hpatterns hmembers ▸ mem_map_of_mem he)) _ s

/-! ## Files -/

variable {source : Source} {text : String}

/-- A sketch that has opened a stylesheet. -/
def openedAt (s : Sketch) (source : Source) (text : String) : Sketch :=
  s.opened "Stylesheet" source.name "structural" [("file_hash", .str (Md5.ofText text))]

def fileDocument (source : Source) (text : String) : Json :=
  nodeDocument (.str "Stylesheet") source.name source.name "structural"
  [("file_hash", .str (Md5.ofText text))]

lemma file_openedAt (s : Sketch) (source : Source) (text : String) :
    (openedAt s source text).file = some source.name := (file_addNode ..).1

lemma mem_openedAt (h : n ∈ (openedAt s source text).draft.nodes) :
    n ∈ s.draft.nodes ∨ n = fileDocument source text := by
  rw [openedAt, opened, addNode] at h
  split at h
  · exact .inl h
  · exact (mem_append.1 h).imp_right mem_singleton.1

lemma visit_eq (htext : source.text = .ok text) (s : Sketch) :
    (reader o).visit source s = (reader o).read text (openedAt s source text) := by
  rw [Reader.visit, htext]
  rfl

lemma visit_eq_error {f : Fault} (htext : source.text = .error f) (s : Sketch) :
    (reader o).visit source s = .error f s := by
  rw [Reader.visit, htext]
  rfl

/-- What goes wrong with a file, if anything does. -/
def faultIn (o : Outline) (s : Sketch) (source : Source) : Option Fault :=
  match (reader o).visit source s with
  | .ok _ _ => none
  | .error f _ => some f

lemma faultIn_of_error {f : Fault} (htext : source.text = .error f) (s : Sketch) :
    faultIn o s source = some f := by
  rw [faultIn, visit_eq_error htext]

def entryOf (f : Fault) (file : Json) : Json :=
  .obj [("type", .str "parse_error"), ("message", .str f.message), ("file", file)]

/-- A file that can be read brings in its things up to some point. If the documents are in order,
these are all of them and nothing goes wrong; otherwise what goes wrong is logged. -/
lemma exists_names_add (htext : source.text = .ok text) (s : Sketch) : ∃ done s',
    done <+: things o text ∧ Names done (openedAt s source text) s' ∧
    (Orderly o → done = things o text ∧ faultIn o s source = none) ∧
    (reader o).add s source = { s' with draft := { s'.draft with logs :=
      s'.draft.logs ++ ((faultIn o s source).map fun f ↦ entryOf f s'.fileJson).toList } } := by
  have hnaming := naming_read (o := o) text (openedAt s source text)
  rw [Reader.add, faultIn, visit_eq htext]
  cases hrun : (reader o).read text (openedAt s source text) with
  | ok a s' =>
    refine ⟨_, s', prefix_rfl, hnaming.ends.1 a s' hrun, fun _ ↦ ⟨rfl, rfl⟩, ?_⟩
    rw [Option.map_none, Option.toList_none, append_nil]
  | error f s' =>
    obtain ⟨done, hdone, hnames⟩ := hnaming.fails f s' hrun
    refine ⟨done, s', hdone, hnames, fun h ↦ ?_, rfl⟩
    obtain ⟨_, _, hok⟩ := hnaming.ends.2 h
    rw [hrun] at hok
    cases hok

lemma Thing.IsFirst.mono {t : Thing} (h : t.IsFirst file ts) (hstart : ts <+: us) :
    t.IsFirst file us := by
  obtain ⟨rest, rfl⟩ := hstart
  rw [IsFirst, find?_append, h]
  rfl

lemma mem_nodes_add (hn : n ∈ ((reader o).add s source).draft.nodes) :
    n ∈ s.draft.nodes ∨ ∃ text, source.text = .ok text ∧ (n = fileDocument source text ∨
      ∃ t : Thing, t.IsFirst source.name (things o text) ∧ n = t.document source.name) := by
  cases htext : source.text with
  | error f =>
    rw [Reader.add, visit_eq_error htext] at hn
    exact .inl hn
  | ok text =>
    obtain ⟨done, s', hdone, hnames, -, hadd⟩ := exists_names_add (o := o) htext s
    rw [hadd] at hn
    have hnamed : n ∈ (done.foldl addThing (openedAt s source text)).draft.nodes :=
      hnames.nodes ▸ hn
    rcases ((mem_foldl_addThing (file_openedAt s source text) done).2.2 n).1
      hnamed with h | ⟨t, ht, -, hn⟩
    · exact (mem_openedAt h).imp_right fun h ↦ ⟨text, rfl, .inl h⟩
    · exact .inr ⟨text, rfl, .inr ⟨t, ht.mono hdone, hn⟩⟩

lemma mem_nodes_ofSources {issued : Nat} {sources : List Source}
    (hn : n ∈ (ofSources o issued sources).draft.nodes) :
    ∃ source ∈ sources, ∃ text, source.text = .ok text ∧ (n = fileDocument source text ∨
      ∃ t : Thing, t.IsFirst source.name (things o text) ∧ n = t.document source.name) := by
  rw [ofSources] at hn
  induction sources using List.reverseRecOn with
  | nil => cases hn
  | append_singleton sources last ih =>
    rw [foldl_append, foldl_cons, foldl_nil] at hn
    rcases mem_nodes_add hn with h | h
    · obtain ⟨source, hsource, h⟩ := ih h
      exact ⟨source, mem_append_left _ hsource, h⟩
    · exact ⟨last, mem_append_right _ mem_cons_self, h⟩

open Stylesheet (Pieces Piece textOf leftOf count_leftOf exists_pieces exists_startsAfter) in
/-- A text without its comments has the line feeds of the text, and as many of them before a
character outside of comments. So a node is on the line on which the first match that names it
starts in the file, whatever the files are and whichever of the patterns that come with the builder
the documents use. A pattern that is not one of `Stylesheet.finders` has no matches here. -/
theorem nodes_on_lines_of_files (o : Outline) (issued : Nat) (sources : List Source) :
    (∀ cs : List Char, (∃ ps, Pieces cs ps) ∧ (stripComments cs).count '\n' = cs.count '\n' ∧
      ∀ before c after, Pieces cs (before ++ .outside c :: after) →
        cs = textOf before ++ c :: textOf after ∧ stripComments cs = leftOf before ++
        c :: leftOf after ∧ (leftOf before).count '\n' = (textOf before).count '\n') ∧
    ∀ n ∈ (ofSources o issued sources).draft.nodes, ∃ source ∈ sources,
      ∃ text, source.text = .ok text ∧
      (n = fileDocument source text ∨ ∃ (t : Thing) (front : List Char),
        t.IsFirst source.name (things o text) ∧ n = t.document source.name ∧
        t.place.StartsAfter text.toList front ∧
        n.member? "line_start" = some (.int (front.count '\n' + 1))) := by
  refine ⟨fun cs ↦ ?_, fun n hn ↦ ?_⟩
  · obtain ⟨ps, hps⟩ := exists_pieces cs
    refine ⟨⟨ps, hps⟩, ?_, fun before c after h ↦ ?_⟩
    · rw [hps.stripComments_eq, count_leftOf, hps.textOf_eq]
    · have htext := h.textOf_eq
      have hleft := h.stripComments_eq
      simp only [textOf, leftOf, flatMap_append, flatMap_cons] at htext hleft
      exact ⟨htext.symm, hleft, count_leftOf before⟩
  · obtain ⟨source, hsource, text, htext, h⟩ := mem_nodes_ofSources hn
    refine ⟨source, hsource, text, htext, h.imp_right fun h ↦ ?_⟩
    obtain ⟨t, hfirst, hdocument⟩ := h
    obtain ⟨e, he, hm⟩ := exists_finder (mem_of_find?_eq_some hfirst)
    obtain ⟨front, hstarts, hline⟩ := exists_startsAfter he hm
    refine ⟨t, front, hfirst, hdocument, hstarts, ?_⟩
    have hmember : (t.document source.name).member? "line_start" = some (.int t.place.line) := rfl
    rw [hdocument, hmember, hline]
    rfl

end CodeAtlas.Build.StyleGraph
