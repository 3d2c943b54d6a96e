import CodeAtlas.Proofs.SketchedGraph
import CodeAtlas.Proofs.SurveyedGraph

/-!
# Files are registered independently

The steps of the first pass for a file are about its own id and the ids below it. Other files, whose
paths are different and have no pair of colons, have no such ids. Consequently no step ever finds
what another file has registered: the first pass over some files yields, one after the other, what
it yields for each of them alone, and it numbers the tickets through.
-/

namespace CodeAtlas.Build

open Fallible Stepwise List Survey Text
open Script (Node)

variable {id path : String} {source : Source} {sources : List Source}
variable {before : Survey} {logged : Prop} {own : String → Prop} {rest : List Char}

def unnumbered (t : Json) : Json := .obj (t.members.filter fun m ↦ m.1 ≠ "id")

lemma unnumbered_document (t : Ticket) (i j : Nat) (resolver : Json) :
    unnumbered (t.document i resolver) = unnumbered (t.document j resolver) := by
  simp [unnumbered, Ticket.document, Json.members]

/-! ## One file beside others -/

/-- A draft that holds what another one held before, and what a third one holds, which has been made
alone. The numbers of tickets are left out, and the logs may be. -/
structure Draft.Extends (logged : Prop) (d before lone : Draft) : Prop where
  nodes : d.nodes = before.nodes ++ lone.nodes
  edges : d.edges = before.edges ++ lone.edges
  tickets : d.ambiguities.map unnumbered =
    before.ambiguities.map unnumbered ++ lone.ambiguities.map unnumbered
  logs : logged → d.logs = before.logs ++ lone.logs

namespace Draft.Extends

variable {d before lone : Draft}

lemma start (before : Draft) (issued : Nat) : Extends logged before before { issued } :=
  ⟨(append_nil _).symm, (append_nil _).symm, (append_nil _).symm, fun _ ↦ (append_nil _).symm⟩

lemma addNode (h : Extends logged d before lone) (n : Json) :
    Extends logged (d.addNode n) before (lone.addNode n) :=
  ⟨by simp [Draft.addNode, h.nodes], h.edges, h.tickets, h.logs⟩

lemma addEdge (h : Extends logged d before lone) (e : Json) :
    Extends logged (d.addEdge e) before (lone.addEdge e) :=
  ⟨h.nodes, by simp [Draft.addEdge, h.edges], h.tickets, h.logs⟩

lemma issue (h : Extends logged d before lone) : Extends logged d.issue before lone.issue :=
  ⟨h.nodes, h.edges, h.tickets, h.logs⟩

lemma addTicket (h : Extends logged d before lone) (t : Ticket) (resolver : Json) :
    Extends logged (d.addTicket t resolver) before (lone.addTicket t resolver) := by
  refine ⟨h.nodes, h.edges, ?_, h.logs⟩
  simp [Draft.addTicket, h.tickets, unnumbered_document t d.issued lone.issued]

lemma addLog (h : Extends logged d before lone) {entry entry' : Json}
    (hentry : logged → entry = entry') :
    Extends logged (d.addLog entry) before (lone.addLog entry') :=
  ⟨h.nodes, h.edges, h.tickets,
    fun hlogged ↦ by simp [Draft.addLog, h.logs hlogged, hentry hlogged]⟩

end Draft.Extends

/-- A draft that holds, block by block, what some drafts hold, up to the numbers of tickets and
perhaps the logs. -/
structure Draft.Collects (logged : Prop) (d : Draft) (blocks : List Draft) : Prop where
  nodes : d.nodes = blocks.flatMap Draft.nodes
  edges : d.edges = blocks.flatMap Draft.edges
  tickets : d.ambiguities.map unnumbered = blocks.flatMap fun block ↦
    block.ambiguities.map unnumbered
  logs : logged → d.logs = blocks.flatMap Draft.logs

lemma Draft.Collects.cons {d after before lone : Draft} {blocks : List Draft}
    (h : Collects logged d (after :: blocks)) (hafter : Extends logged after before lone) :
    Collects logged d (before :: lone :: blocks) where
  nodes := by simp [h.nodes, hafter.nodes]
  edges := by simp [h.edges, hafter.edges]
  tickets := by simp [h.tickets, hafter.tickets]
  logs hlogged := by simp [h.logs hlogged, hafter.logs hlogged]

/-- What stands after some files is collected from what each yields alone, if a file whose ids are
free yields the same after others as alone, and leaves free the ids of files with other names. -/
lemma Draft.collects_foldl {σ : Type} (draft : σ → Draft) (Free : String → σ → Prop)
    {add : σ → Source → σ} {block : Source → Draft} {Fine : String → Prop}
    (hstep : ∀ s source, Fine source.name → Free source.name s →
      Extends logged (draft (add s source)) (draft s) (block source) ∧
        ∀ other, Fine other → other ≠ source.name → Free other s → Free other (add s source))
    (hfine : ∀ source ∈ sources, Fine source.name) (hdistinct : (sources.map Source.name).Nodup)
    {s : σ} (hfree : ∀ source ∈ sources, Free source.name s) :
    Collects logged (draft (sources.foldl add s)) (draft s :: sources.map block) := by
  induction sources generalizing s with
  | nil => exact ⟨by simp, by simp, by simp, by simp⟩
  | cons source rest ih =>
    obtain ⟨hhere, hfine⟩ := forall_mem_cons.1 hfine
    obtain ⟨hown, hothers⟩ := forall_mem_cons.1 hfree
    rw [map_cons, nodup_cons] at hdistinct
    obtain ⟨hextends, hnext⟩ := hstep s source hhere hown
    refine (ih hfine hdistinct.2 fun other hother ↦ ?_).cons hextends
    refine hnext other.name (hfine other hother) (fun heq ↦ hdistinct.1 ?_) (hothers other hother)
    exact mem_map.2 ⟨other, hother, heq⟩

/-- A survey that holds what was there before and what another one holds, which has been made alone
from ids of some kind, with or without the logs. -/
structure Beside (own : String → Prop) (logged : Prop) (before s lone : Survey) : Prop where
  registry : s.registry = before.registry ++ lone.registry
  fresh : ∀ id, own id → before.registry.get? id = none
  owned : ∀ id ∈ lone.registry.keys, own id
  draft : s.draft.Extends logged before.draft lone.draft

namespace Beside

variable {s lone : Survey}

lemma start (h : ∀ id, own id → before.registry.get? id = none) (issued : Nat) :
    Beside own logged before before { draft := { issued } } where
  registry := (append_nil _).symm
  fresh := h
  owned := by simp [Table.keys]
  draft := .start _ issued

lemma node? (h : Beside own logged before s lone) (hid : own id) : s.node? id = lone.node? id := by
  rw [Survey.node?, h.registry, Table.get?_append, h.fresh id hid]
  rfl

lemma register (h : Beside own logged before s lone) (hid : own id) (node : Json) :
    Beside own logged before (s.register id node) (lone.register id node) where
  registry := by
    show s.registry.put id node = before.registry ++ lone.registry.put id node
    rw [h.registry, Table.put_append (Table.get?_eq_none_iff.1 (h.fresh id hid))]
  fresh := h.fresh
  owned other hother := (Table.mem_keys_put.1 hother).elim (fun heq ↦ heq ▸ hid) (h.owned other)
  draft := h.draft.addNode node

end Beside

/-! ## Steps of one file -/

section

variable {setup : Setup}

lemma Survey.uniform_emitTicket (kind expression reason scope confidence : String) :
    Uniform (Beside own logged before)
      (emitTicket setup kind expression reason scope confidence) := by
  refine .bind (.of_modify fun s t h ↦ ?_) fun _ ↦ .bind (.lift _) fun resolver ↦
    .of_modify fun s t h ↦ ?_
  · exact ⟨h.registry, h.fresh, h.owned, h.draft.issue⟩
  · exact ⟨h.registry, h.fresh, h.owned, h.draft.addTicket _ resolver⟩

lemma Survey.uniform_emitEdge (relation : String) {source target : String} (hsource : own source)
    (htarget : own target) (details : List (String × Json)) :
    Uniform (Beside own logged before) (emitEdge setup relation source target details) := by
  refine .get_bind fun s t h ↦ ?_
  rw [h.node? hsource, h.node? htarget]
  refine .of_uniform ?_ h
  split
  · refine .bind (.lift _) fun edge ↦ ?_
    split
    · refine .bind (.lift _) fun _ ↦ .bind (.lift _) fun _ ↦ .bind (.lift _) fun allowed ↦ ?_
      split
      · exact .of_modify fun s t h ↦ ⟨h.registry, h.fresh, h.owned, h.draft.addEdge _⟩
      · exact uniform_emitTicket _ _ _ _ _
    · exact uniform_emitTicket _ _ _ _ _
  · exact .pure _

namespace Definitions

/-- A step about ids of a kind goes the same way wherever nobody else uses ids of that kind. -/
lemma Step.uniform_run {step : Step} (hstep : step.Arises setup path own) :
    Uniform (Beside own logged before) (step.run setup) := by
  cases step with
  | fail f => exact .throw f
  | register id node => exact .of_modify fun s t h ↦ h.register (hstep.registers rfl).1 node
  | link relation source target =>
    obtain ⟨hsource, htarget⟩ := hstep.of_link
    exact uniform_emitEdge relation hsource htarget []
  | note kind expression reason scope confidence => exact uniform_emitTicket _ _ _ _ _
  | once relation parent id node =>
    have hid : own id := (hstep.registers rfl).1
    refine .get_bind fun s t h ↦ ?_
    rw [h.node? hid]
    refine .of_uniform ?_ h
    split
    · refine .bind (.of_modify fun s t h ↦ h.register hid node) fun _ ↦ ?_
      exact uniform_emitEdge relation hstep.of_once hid []
    · exact .pure _

lemma uniform_visitFile (hown : ∀ id name, own id → own (symbolId id name))
    (hfile : own (fileId source.name)) (text : String) (n : Node) :
    Uniform (Beside own logged before) (visitFile setup source text n) := by
  rw [visitFile]
  exact .forM fun step hstep ↦ Step.uniform_run (arises_fileSteps hown hfile text n step hstep)

end Definitions

end

/-! ## Ids of a file -/

/-- The ids of a file: its own and those below it. -/
def IsIdOf (file id : String) : Prop := id = file ∨ ∃ rest, id = symbolId file rest

lemma IsIdOf.exists_rest {file : String} (h : IsIdOf file id) (name : String) :
    ∃ rest, symbolId id name = symbolId file rest := by
  rcases h with rfl | ⟨rest, rfl⟩
  · exact ⟨name, rfl⟩
  · refine ⟨rest ++ "::" ++ name, ?_⟩
    simp only [Build.symbolId, String.append_assoc]

lemma IsIdOf.symbolId {file : String} (h : IsIdOf file id) (name : String) :
    IsIdOf file (symbolId id name) := .inr (h.exists_rest name)

lemma append_of_afterList? {start whole : List Char}
    (h : afterList? start whole = some rest) : start ++ rest = whole := by
  fun_induction afterList? start whole with
  | case1 whole => exact (Option.some.inj h).symm
  | case2 => cases h
  | case3 start c whole ih => exact congrArg (c :: ·) (ih h)
  | case4 => cases h

lemma splitListBy_eq_singleton {separator piece : List Char} {steps : Nat}
    (h : ¬separator <:+: rest) :
    splitListBy separator steps piece rest = [piece.reverse ++ rest] := by
  fun_induction splitListBy separator steps piece rest with
  | case1 => rfl
  | case2 => rw [append_nil]
  | case3 _ _ _ _ _ hafter => exact absurd (append_of_afterList? hafter ▸ infix_append' [] _ _) h
  | case4 _ _ c rest _ ih =>
    rw [ih fun hoccurs ↦ h (hoccurs.trans (suffix_cons c rest).isInfix)]
    simp

lemma fileId_eq (h : occursIn "\\" path = false) : fileId path = path := by
  have hoccurs : ¬"\\".toList <:+: path.toList := by
    rw [← isInfixOf_iff, Bool.not_eq_true]
    exact h
  rw [fileId, Text.replace, Text.splitBy, splitListBy_eq_singleton hoccurs]
  simp

/-- What stands before the first pair of colons is a piece of its own. -/
lemma head?_splitListBy_colons {file : List Char} {steps : Nat} (piece rest : List Char)
    (hfile : ¬[':', ':'] <:+: file) (hlast : file.getLast? ≠ some ':')
    (hsteps : file.length < steps) :
    (splitListBy [':', ':'] steps piece (file ++ ':' :: ':' :: rest)).head? =
    some (piece.reverse ++ file) := by
  induction file generalizing piece steps with
  | nil =>
    obtain ⟨steps, rfl⟩ := Nat.exists_eq_add_one_of_ne_zero (Nat.ne_zero_of_lt hsteps)
    simp [splitListBy, afterList?]
  | cons c file ih =>
    obtain ⟨steps, rfl⟩ := Nat.exists_eq_add_one_of_ne_zero (Nat.ne_zero_of_lt hsteps)
    have hafter : afterList? [':', ':'] (c :: (file ++ ':' :: ':' :: rest)) = none := by
      refine Option.eq_none_iff_forall_ne_some.2 fun rest' hcolons ↦ ?_
      obtain ⟨rfl, htail⟩ := List.cons.inj (append_of_afterList? hcolons)
      cases file with
      | nil => exact hlast rfl
      | cons d file =>
        obtain ⟨rfl, -⟩ := List.cons.inj htail
        exact hfile (prefix_append [':', ':'] file).isInfix
    have hlast' : file.getLast? ≠ some ':' := fun h ↦ hlast (by rw [getLast?_cons, h]; rfl)
    rw [cons_append, splitListBy, hafter]
    rw [ih _ (fun h ↦ hfile (h.trans (suffix_cons c file).isInfix)) hlast'
      (Nat.lt_of_succ_lt_succ hsteps)]
    simp

/-- A path that tells where it ends: it has no pair of colons, and no colon at its end. -/
structure IsBounded (path : String) : Prop where
  undivided : Undivided path
  last : path.toList.getLast? ≠ some ':'

lemma isBounded_of_endsWith {ending : String} {c : Char} (hcolons : occursIn "::" path = false)
    (h : endsWith path ending = true) (hlast : ending.toList.reverse.head? = some c)
    (hc : c ≠ ':') : IsBounded path := by
  refine ⟨undivided_iff.2 hcolons, ?_⟩
  rw [endsWith, isPrefixOf_iff_prefix] at h
  obtain ⟨rest, hrest⟩ := h
  rw [← head?_reverse, ← hrest, head?_append, hlast]
  simpa using hc

/-- A path that tells where it ends and has no backslashes, so that it is the id of its file. -/
structure IsPlainPath (path : String) : Prop extends IsBounded path where
  backslash : Text.occursIn "\\" path = false

/-- The path of a file is what stands before the first pair of colons in any id of it. -/
lemma headBy_colons (hpath : IsBounded path) (h : IsIdOf path id) : headBy "::" id = path := by
  rcases h with h | ⟨rest, rfl⟩
  · subst id
    have hundivided : ¬"::".toList <:+: path.toList := hpath.undivided
    rw [headBy, Text.splitBy, splitListBy_eq_singleton hundivided]
    simp
  · have hlist : (symbolId path rest).toList = path.toList ++ ':' :: ':' :: rest.toList := by
      simp [symbolId]
    have hlength : path.toList.length < (symbolId path rest).length := by
      rw [← String.length_toList, hlist]
      simp
    have hhead := head?_splitListBy_colons [] rest.toList hpath.undivided hpath.last hlength
    rw [headBy, Text.splitBy, hlist, head?_map, show "::".toList = [':', ':'] from rfl, hhead]
    simp

lemma eq_of_isIdOf {f g : String} (hf : IsBounded f) (hg : IsBounded g) (h : IsIdOf f id)
    (h' : IsIdOf g id) : f = g := (headBy_colons hf h).symm.trans (headBy_colons hg h')

/-! ## One file after the other -/

section

variable {before : Survey}
variable (setup : Setup)

lemma Survey.beside_walk {s lone : Survey} {a b : Source}
    {x y : Surveying Unit} (hpath : logged → a.path = b.path)
    (h : Alike (Beside own logged before) x y s lone) (word : String) :
    Beside own logged before (s.walk word a x) (lone.walk word b y) := by
  cases h with
  | ok hs hlone h =>
    rw [walk, hs, walk, hlone]
    exact h
  | error hs hlone h =>
    rw [walk, hs, walk, hlone]
    exact ⟨h.registry, h.fresh, h.owned, h.draft.addLog fun hlogged ↦ by rw [hpath hlogged]⟩

/-- A file yields the same whether or not others have been registered before, unless they have ids
of this file. -/
lemma beside_addDefinitions (hpath : IsPlainPath source.name)
    (hfresh : ∀ id, IsIdOf source.name id → before.registry.get? id = none) :
    Beside (IsIdOf source.name) True before (before.addDefinitions setup source)
      (firstPass setup 0 [source]) := by
  have hstart : Beside _ True before before _ := .start hfresh 0
  have hown : IsIdOf source.name (fileId source.name) := .inl (fileId_eq hpath.backslash)
  refine beside_walk (fun _ ↦ rfl) (.lift_bind hstart fun parsed _ ↦ ?_) "error"
  exact Definitions.uniform_visitFile (fun id name hid ↦ hid.symbolId name) hown parsed.1
    parsed.2 _ _ hstart

def block (source : Source) : Draft := (firstPass setup 0 [source]).draft

lemma collects_addDefinitions (hpaths : ∀ source ∈ sources, IsPlainPath source.name)
    (hdistinct : (sources.map Source.name).Nodup)
    (hfresh : ∀ source ∈ sources, ∀ id, IsIdOf source.name id → before.registry.get? id = none) :
    (sources.foldl (addDefinitions setup) before).draft.Collects True
      (before.draft :: sources.map (block setup)) := by
  refine Draft.collects_foldl draft (fun name s ↦ ∀ id, IsIdOf name id → s.registry.get? id = none)
    (fun s source hpath hown ↦ ?_) hpaths hdistinct hfresh
  have hbeside := beside_addDefinitions setup hpath hown
  refine ⟨hbeside.draft, fun other hother hne hfree id hid ↦ ?_⟩
  -- What this file has registered is no id of the other one.
  rw [hbeside.registry, Table.get?_append, hfree id hid, Option.none_or, Table.get?_eq_none_iff]
  exact fun hid' ↦
    hne (eq_of_isIdOf hother.toIsBounded hpath.toIsBounded hid (hbeside.owned id hid'))

lemma Survey.walk_congr (s : Survey) (word : String) (step : Surveying Unit)
    (source other : Source) :
    (s.walk word other step).draft.nodes = (s.walk word source step).draft.nodes ∧
    (s.walk word other step).draft.edges = (s.walk word source step).draft.edges ∧
    (s.walk word other step).draft.ambiguities = (s.walk word source step).draft.ambiguities := by
  rw [walk, walk]
  cases step s <;> exact ⟨rfl, rfl, rfl⟩

lemma block_congr {other : Source} (hname : other.name = source.name)
    (htext : other.text = source.text) : (block setup other).nodes = (block setup source).nodes ∧
    (block setup other).edges = (block setup source).edges ∧
    (block setup other).ambiguities = (block setup source).ambiguities := by
  obtain ⟨name, path, text⟩ := source
  obtain ⟨name', path', text'⟩ := other
  obtain rfl : name' = name := hname
  obtain rfl : text' = text := htext
  exact walk_congr _ "error" _ _ _

/-- The first pass over files of different plain paths, in whatever order, yields block by block
what it yields for each of them alone, and that depends on nothing but the path and the text of the
file. -/
theorem firstPass_concatenates (issued : Nat) {sources : List Source}
    (hdistinct : (sources.map Source.name).Nodup)
    (hpaths : ∀ source ∈ sources, IsPlainPath source.name) :
    (∀ order, order.Perm sources →
      (firstPass setup issued order).draft.Collects True (order.map (block setup))) ∧
    ∀ source other : Source, other.name = source.name → other.text = source.text →
      (block setup other).nodes = (block setup source).nodes ∧
      (block setup other).edges = (block setup source).edges ∧
      (block setup other).ambiguities = (block setup source).ambiguities := by
  refine ⟨fun order horder ↦ ?_, fun source other ↦ block_congr setup⟩
  have hpaths' : ∀ source ∈ order, IsPlainPath source.name := fun source hsource ↦
    hpaths source (horder.mem_iff.1 hsource)
  have hdistinct' : (order.map Source.name).Nodup := (horder.map Source.name).nodup_iff.2 hdistinct
  have hblocks : (firstPass setup issued order).draft.Collects True
      ({ issued } :: order.map (block setup)) :=
    collects_addDefinitions setup hpaths' hdistinct' fun _ _ _ _ ↦ rfl
  exact ⟨hblocks.nodes, hblocks.edges, hblocks.tickets, hblocks.logs⟩

end

/-- A function inside a function, for which there is a ticket. -/
def nestedSource (name : String) : Source :=
  ⟨name, "/p/" ++ name, .ok "def f():\n    def g():\n        pass\n"⟩

theorem firstPass_concatenates_nested :
    (["a.py", "b.py"].map nestedSource).map Source.name = ["a.py", "b.py"] ∧
    (∀ source ∈ ["a.py", "b.py"].map nestedSource, IsPlainPath source.name) ∧
    (firstPass scriptSetup 5 (["b.py", "a.py"].map nestedSource)).draft.Collects True
      [block scriptSetup (nestedSource "b.py"), block scriptSetup (nestedSource "a.py")] ∧
    (firstPass scriptSetup 5 (["b.py", "a.py"].map nestedSource)).draft.ambiguities.length = 2 := by
  have hpaths : ∀ source ∈ ["a.py", "b.py"].map nestedSource, IsPlainPath source.name := by
    simp only [List.map_cons, List.map_nil, List.forall_mem_cons]
    exact ⟨⟨⟨undivided_iff.2 (by decide), by decide⟩, by decide⟩,
      ⟨⟨undivided_iff.2 (by decide), by decide⟩, by decide⟩, forall_mem_nil _⟩
  refine ⟨rfl, hpaths, ?_, by decide +kernel⟩
  exact (firstPass_concatenates scriptSetup 5 (by decide) hpaths).1 _ (.swap _ _ _)

end CodeAtlas.Build
