import CodeAtlas.Proofs.NamedThings
import CodeAtlas.Proofs.SeparateFiles

/-!
# Pages and stylesheets are read independently

All ids that a page or a stylesheet brings into a graph are its path and those below it, and its
edges start from its path. Other files, whose paths are different and have no pair of colons, have
none of these. So nothing is left out because another file has it already: a build of some files
yields, one after the other, what it yields for each of them alone, wherever reading one of them
fails.
-/

namespace CodeAtlas.Build

open Stepwise Sketch

variable {before : Sketch}

/-- Two files have the same name and the same text, or neither can be read. -/
structure Source.Alike (a b : Source) : Prop where
  name : a.name = b.name
  text : a.text.toOption = b.text.toOption

/-- Files that are alike can both be read, and then have one text, or neither can. -/
lemma Source.Alike.cases {a b : Source} (h : a.Alike b) :
    (∃ text, a.text = .ok text ∧ b.text = .ok text) ∨
      ∃ f g, a.text = .error f ∧ b.text = .error g := by
  have htext := h.text
  cases ha : a.text with
  | ok text =>
    cases hb : b.text with
    | ok text' =>
      rw [ha, hb] at htext
      cases htext
      exact .inl ⟨text, rfl, rfl⟩
    | error g =>
      rw [ha, hb] at htext
      cases htext
  | error f =>
    cases hb : b.text with
    | ok text =>
      rw [ha, hb] at htext
      cases htext
    | error g => exact .inr ⟨f, g, rfl, rfl⟩

/-- A list has the items of one sort from one list and all others from another one. -/
def Split {α : Type} (own : α → Prop) (all before lone : List α) : Prop :=
  ∀ x, x ∈ all ↔ own x ∧ x ∈ lone ∨ ¬own x ∧ x ∈ before

lemma Split.mem_iff {α : Type} {own : α → Prop} {all before lone : List α}
    (h : Split own all before lone) {x : α} (hx : own x) : x ∈ all ↔ x ∈ lone := by
  simp [h x, hx]

lemma Split.cons {α : Type} {own : α → Prop} {all before lone : List α}
    (h : Split own all before lone)
    {x : α} (hx : own x) : Split own (x :: all) before (x :: lone) := by
  intro y
  have hy := h y
  grind

namespace Sketch

/-- A sketch that holds what was there before and what another one holds, which has been made alone
from ids of some kind. -/
structure Beside (own : String → Prop) (before s lone : Sketch) : Prop where
  draft : s.draft.Extends False before.draft lone.draft
  ids : Split own s.nodeIds before.nodeIds lone.nodeIds
  keys : Split (fun key ↦ own key.2.1) s.edgeKeys before.edgeKeys lone.edgeKeys

/-- Two sketches of which one stands beside the other are reading the file of a name. -/
structure BothRead (own : String → Prop) (before : Sketch) (name : String) (s lone : Sketch) :
    Prop where
  beside : Beside own before s lone
  file : s.file = some name
  file' : lone.file = some name
  fileId : s.fileId = some name
  fileId' : lone.fileId = some name

variable {own : String → Prop} {s lone : Sketch} {name : String}

lemma Beside.addNode (h : Beside own before s lone) {id : String} (hid : own id) (type : Json)
    (value confidence : String) (details : List (String × Json)) :
    Beside own before (s.addNode type value id confidence details)
      (lone.addNode type value id confidence details) := by
  have hiff : s.nodeIds.contains id = lone.nodeIds.contains id := by
    rw [Bool.eq_iff_iff, List.contains_iff_mem, List.contains_iff_mem, h.ids.mem_iff hid]
  rw [Sketch.addNode, Sketch.addNode, hiff]
  split
  · exact h
  · exact ⟨h.draft.addNode _, h.ids.cons hid, h.keys⟩

lemma Beside.opened (h : Beside own before s lone) (hname : own name) (fileKind confidence : String)
    (details : List (String × Json)) :
    BothRead own before name (s.opened fileKind name confidence details)
      (lone.opened fileKind name confidence details) := by
  have hopen : Beside own before { s with file := some name } { lone with file := some name } :=
    ⟨h.draft, h.ids, h.keys⟩
  have hnode := hopen.addNode hname fileKind name confidence details
  refine ⟨⟨hnode.draft, hnode.ids, hnode.keys⟩, ?_, ?_, rfl, rfl⟩ <;>
    exact (file_addNode _ _ _ _ _ _).1

namespace BothRead

lemma fileJson (h : BothRead own before name s lone) :
    s.fileJson = .str name ∧ lone.fileJson = .str name := by
  simp [Sketch.fileJson, h.file, h.file']

lemma addNode (h : BothRead own before name s lone) {id : String} (hid : own id) (type : Json)
    (value confidence : String) (details : List (String × Json)) :
    BothRead own before name (s.addNode type value id confidence details)
      (lone.addNode type value id confidence details) := by
  obtain ⟨hfile, hfileId⟩ := file_addNode s type value id confidence details
  obtain ⟨hfile', hfileId'⟩ := file_addNode lone type value id confidence details
  exact ⟨h.beside.addNode hid _ _ _ _, hfile.trans h.file, hfile'.trans h.file',
    hfileId.trans h.fileId, hfileId'.trans h.fileId'⟩

end BothRead

variable {o : Outline}

lemma uniform_emitTicket (kind : String) (expression : Json) (reason : String) (scope : Json)
    (confidence : String) :
    Uniform (BothRead own before name) (emitTicket o kind expression reason scope confidence) := by
  refine .bind (.of_modify fun s t h ↦ ?_) fun _ ↦ .bind (.lift _) fun resolver ↦
    .of_modify fun s t h ↦ ?_
  · exact ⟨⟨h.beside.draft.issue, h.beside.ids, h.beside.keys⟩, h.file, h.file',
      h.fileId, h.fileId'⟩
  · exact ⟨⟨h.beside.draft.addTicket _ resolver, h.beside.ids, h.beside.keys⟩, h.file,
      h.file', h.fileId, h.fileId'⟩

lemma uniform_emitEdge (hname : own name) (edge : Json) (target : String)
    (sourceType targetType : Json) :
    Uniform (BothRead own before name) (emitEdge o edge name target sourceType targetType) := by
  refine .bind (.lift _) fun key ↦ .get_bind fun s t h ↦ ?_
  have hkeys : s.edgeKeys.contains (key, name, target) =
      t.edgeKeys.contains (key, name, target) := by
    rw [Bool.eq_iff_iff, List.contains_iff_mem, List.contains_iff_mem, h.beside.keys.mem_iff hname]
  rw [h.fileJson.1, h.fileJson.2, hkeys]
  split
  · exact .of_uniform (uniform_emitTicket _ _ _ _ _) h
  · refine .lift_bind h fun allowed _ ↦ ?_
    split
    · exact .of_uniform (uniform_emitTicket _ _ _ _ _) h
    · split
      · exact .ok rfl rfl ⟨⟨h.beside.draft.addEdge _, h.beside.ids, h.beside.keys.cons hname⟩,
          h.file, h.file', h.fileId, h.fileId'⟩
      · exact .pure h _

lemma uniform_note (kind : String) (expression : Json) (reason : String) :
    Uniform (BothRead own before name) (note o kind expression reason) := by
  refine .get_bind fun s t h ↦ ?_
  rw [h.fileJson.1, h.fileJson.2]
  exact uniform_emitTicket _ _ _ _ _ s t h

lemma uniform_nameThing (hname : own name) {fileKind : String} {type : Json} {value : String}
    (hthing : ∀ s : Sketch, s.file = some name → own (s.idFor fileKind type value))
    (confidence : String) (details : List (String × Json)) (edge? : Except Fault (Option Json)) :
    Uniform (BothRead own before name)
      (nameThing o fileKind type value confidence details edge?) := by
  refine .get_bind fun s t h ↦ ?_
  have hid : t.idFor fileKind type value = s.idFor fileKind type value := by
    rw [idFor, idFor, h.fileJson.1, h.fileJson.2]
  rw [hid]
  refine .bind (.of_modify (h.addNode (hthing s h.file) type value confidence details))
    fun _ s' t' h' ↦ .lift_bind h' fun edge? _ ↦ ?_
  cases edge? with
  | some edge =>
    refine .get_bind ?_
    rw [h'.fileId, h'.fileId']
    exact uniform_emitEdge hname _ _ _ _ s' t' h'
  | none => exact .pure h' _

end Sketch

open Sketch

namespace Reader

variable {r : Reader} {sort : Json → Prop} {own : String → Prop} {s lone : Sketch}

lemma beside_add (hr : r.Reads sort) {a b : Source} (hab : a.Alike b) (hname : own a.name)
    (hthing : ∀ type value (s : Sketch), sort type → s.file = some a.name →
      own (s.idFor r.fileKind type value))
    (h : Sketch.Beside own before s lone) : Sketch.Beside own before (r.add s a)
    (r.add lone b) := by
  have hlog {s lone : Sketch} (h : Sketch.Beside own before s lone) (entry entry' : Json) :
      Sketch.Beside own before { s with draft := s.draft.addLog entry }
        { lone with draft := lone.draft.addLog entry' } :=
    ⟨h.draft.addLog False.elim, h.ids, h.keys⟩
  obtain ⟨text, ha, hb⟩ | ⟨f, g, ha, hb⟩ := hab.cases
  · have hread : Uniform (BothRead own before a.name) (r.read text) :=
      hr.read (Uniform.composes _) uniform_note (fun type value confidence details edge? htype _ ↦
        uniform_nameThing hname (fun s hs ↦ hthing type value s htype hs) confidence details edge?)
        text
    have hopened := h.opened hname r.fileKind "structural" (r.details text)
    have hs : r.visit a s =
        r.read text (s.opened r.fileKind a.name "structural" (r.details text)) := by
      rw [visit, ha]
      rfl
    have hlone : r.visit b lone =
        r.read text (lone.opened r.fileKind a.name "structural" (r.details text)) := by
      rw [visit, hb, hab.name]
      rfl
    rw [add, add, hs, hlone]
    cases hread _ _ hopened with
    | ok hx hy h' =>
      rw [hx, hy]
      exact h'.beside
    | error hx hy h' =>
      rw [hx, hy]
      exact hlog h'.beside _ _
  · have hs : r.visit a s = .error f s := by rw [visit, ha]; rfl
    have hlone : r.visit b lone = .error g lone := by rw [visit, hb]; rfl
    rw [add, add, hs, hlone]
    exact hlog h _ _

def block (r : Reader) (source : Source) : Draft := (r.add {} source).draft

end Reader

/-- No node has an id of some kind, and no edge starts from one. -/
def Sketch.Lacks (own : String → Prop) (s : Sketch) : Prop :=
  (∀ id ∈ s.nodeIds, ¬own id) ∧ ∀ key ∈ s.edgeKeys, ¬own key.2.1

namespace Reader.Sound

variable {r : Reader} (hr : r.Sound)
include hr

lemma beside_block {source : Source} (hlacks : before.Lacks (IsIdOf source.name)) :
    Sketch.Beside (IsIdOf source.name) before (r.add before source) (r.add {} source) := by
  have hstart : Sketch.Beside (IsIdOf source.name) before before {} := by
    refine ⟨.start _ 0, fun id ↦ ?_, fun key ↦ ?_⟩
    · have hid := hlacks.1 id
      grind
    · have hkey := hlacks.2 key
      grind
  refine beside_add hr.reads ⟨rfl, rfl⟩ (.inl rfl) (fun type value s htype hs ↦ ?_) hstart
  obtain ⟨kind, rfl, hkind⟩ := htype
  rw [idFor_of_isThing hs hkind]
  exact .inr ⟨kind ++ "::" ++ value, by simp [scopedId, symbolId, Json.display,
    String.append_assoc]⟩

lemma collects (issued : Nat) {sources : List Source}
    (hpaths : ∀ source ∈ sources, IsBounded source.name)
    (hdistinct : (sources.map Source.name).Nodup) :
    (sources.foldl r.add { draft := { issued } }).draft.Collects False (sources.map r.block) := by
  suffices hcollects : (sources.foldl r.add { draft := { issued } }).draft.Collects False
      ({ issued } :: sources.map r.block) from
    ⟨hcollects.nodes, hcollects.edges, hcollects.tickets, hcollects.logs⟩
  refine Draft.collects_foldl draft (fun name s ↦ s.Lacks (IsIdOf name))
    (fun s source hpath hown ↦ ?_) hpaths hdistinct fun _ _ ↦
    ⟨fun _ h ↦ (by cases h), fun _ h ↦ (by cases h)⟩
  have hbeside := hr.beside_block hown
  refine ⟨hbeside.draft, fun other hother hne hfree ↦ ?_⟩
  -- What this file brings in is of no use to the other one.
  have hforeign {id : String} (hid : IsIdOf other id) : ¬IsIdOf source.name id :=
    fun hid' ↦ hne (eq_of_isIdOf hother hpath hid hid')
  refine ⟨fun id hid hid' ↦ ?_, fun key hkey hkey' ↦ ?_⟩
  · rcases (hbeside.ids id).1 hid with ⟨hid, -⟩ | ⟨-, hid⟩
    · exact hforeign hid' hid
    · exact hfree.1 id hid hid'
  · rcases (hbeside.keys key).1 hkey with ⟨hkey, -⟩ | ⟨-, hkey⟩
    · exact hforeign hkey' hkey
    · exact hfree.2 key hkey hkey'

end Reader.Sound

/-- Under the documents that come with the builders, the graph of pages with different paths is made
up, in their order, of what each page yields alone; and so is the graph of stylesheets. A page or a
stylesheet that fails on the way yields alone what it has yielded up to there. -/
theorem pages_and_stylesheets_collected (issued : Nat) {sources : List Source}
    (hdistinct : (sources.map Source.name).Nodup)
    (hcolons : ∀ source ∈ sources, Text.occursIn "::" source.name = false) :
    ∃ markup styles,
      MarkupGraph.Setup.ofDocuments Catalog.htmlInstructions Catalog.htmlMapping coreRules =
      .ok markup ∧
      StyleGraph.outlineOf Catalog.cssInstructions Catalog.cssMapping coreRules = .ok styles ∧
      ((∀ source ∈ sources, Text.endsWith source.name ".html" = true) →
        (MarkupGraph.ofSources markup issued sources).draft.Collects False
          (sources.map fun source ↦ (MarkupGraph.ofSources markup 0 [source]).draft)) ∧
      ((∀ source ∈ sources, Text.endsWith source.name ".css" = true) →
        (StyleGraph.ofSources styles issued sources).draft.Collects False
          (sources.map fun source ↦ (StyleGraph.ofSources styles 0 [source]).draft)) := by
  obtain ⟨markup, hmarkup, hmarkupSound⟩ := exists_markup
  obtain ⟨styles, hstyles, hstylesSound⟩ := exists_styles
  refine ⟨markup, styles, hmarkup, hstyles, fun hends ↦ ?_, fun hends ↦ ?_⟩
  · exact hmarkupSound.collects issued
      (fun source hsource ↦ isBounded_of_endsWith (hcolons source hsource)
      (hends source hsource) rfl (show 'l' ≠ ':' by decide)) hdistinct
  · exact hstylesSound.collects issued
      (fun source hsource ↦ isBounded_of_endsWith (hcolons source hsource)
      (hends source hsource) rfl (show 's' ≠ ':' by decide)) hdistinct

/-- A page that breaks off in a section that cannot be read, and one that cannot be opened. -/
def brokenPages : List Source :=
  [⟨"a.html", "/p/a.html", .ok "<img src=\"/a.png\"><![shop[ <img src=\"/b.png\">"⟩,
   ⟨"b.html", "/p/b.html", .error (.isDirectory "/p/b.html")⟩]

theorem pages_and_stylesheets_collected_brokenPages : (brokenPages.map Source.name).Nodup ∧
    ∃ markup, MarkupGraph.Setup.ofDocuments Catalog.htmlInstructions Catalog.htmlMapping coreRules =
      .ok markup ∧ (MarkupGraph.ofSources markup 0 brokenPages).draft.Collects False
        (brokenPages.map fun source ↦ (MarkupGraph.ofSources markup 0 [source]).draft) := by
  have hdistinct : (brokenPages.map Source.name).Nodup := by decide
  obtain ⟨markup, -, hmarkup, -, hpages, -⟩ :=
    pages_and_stylesheets_collected 0 hdistinct (by decide)
  exact ⟨hdistinct, markup, hmarkup, hpages (by decide)⟩

end CodeAtlas.Build
