import CodeAtlas.Build.MarkupGraph
import CodeAtlas.Build.StyleGraph
import CodeAtlas.Proofs.SketchedGraph

/-!
# Graphs of markup and stylesheets pass the check

Both languages are read in the same way. A file is opened and becomes a node, and then all that is
done with its text is to write tickets about the file and to name things. Consequently what holds of
opening a file, of tickets and of things holds of a build of either language. Wherever reading a
file fails, what has been found by then is a proper sketch, so that the graph passes the check.
-/

namespace CodeAtlas.Build

open Stepwise Json

variable {rule : Json} {rules : List Json}

namespace Sketch

/-- A node for what the file names, and perhaps an edge to it. -/
def nameThing (o : Outline) (fileKind : String) (type : Json) (value confidence : String)
    (details : List (String × Json)) (edge? : Except Fault (Option Json)) : Sketching Unit := do
  let id := (← get).idFor fileKind type value
  modify fun s ↦ s.addNode type value id confidence details
  linkTo o fileKind id type edge?

variable {o : Outline} {fileKind value confidence : String} {type : Json}
  {details : List (String × Json)} {edge? : Except Fault (Option Json)}

lemma emitNode_bind_linkTo : (do
      let id ← emitNode fileKind type value confidence .null details
      linkTo o fileKind id type edge?) = nameThing o fileKind type value confidence details edge? :=
      rfl

end Sketch

open Sketch

/-- All that is done with a text are tickets, and things whose kinds are of some sort. -/
structure Reader.Reads (r : Reader) (sort : Json → Prop) : Prop where
  details : ∀ text, AreDetails (r.details text)
  read : ∀ {K : (α : Type) → Sketching α → Prop}, Composes K →
    (∀ kind expression reason, K _ (note r.outline kind expression reason)) →
    (∀ type value confidence details edge?, sort type → AreDetails details →
      K _ (nameThing r.outline r.fileKind type value confidence details edge?)) →
    ∀ text, K _ (r.read text)

/-- What a walk over a value meets; nothing if there is no walk. -/
def itemsOf (v : Json) : List Json := v.elements.toOption.getD []

lemma itemsOf_eq {v : Json} {items : List Json} (h : v.elements = .ok items) :
    itemsOf v = items := by
  rw [itemsOf, h]
  rfl

namespace MarkupGraph

def rulesOf (mapping : Json) : List Json :=
  itemsOf ((mapping.member? "attribute_interactions").getD (.arr [])) ++
    (((mapping.member? "tag_interactions").getD (.obj [])).members.flatMap fun e ↦ itemsOf e.2)

lemma mem_rulesOf_of_attribute {mapping v : Json}
    (hv : mapping.getD "attribute_interactions" (.arr []) = .ok v) (hrules : v.elements = .ok rules)
    (hrule : rule ∈ rules) : rule ∈ rulesOf mapping := by
  rw [getD_eq_ok] at hv
  refine List.mem_append_left _ ?_
  rw [hv.2, itemsOf_eq hrules]
  exact hrule

lemma mem_rulesOf_of_tag {mapping byTag v : Json} {tag : String}
    (hbyTag : mapping.getD "tag_interactions" (.obj []) = .ok byTag) (hv : byTag.need tag = .ok v)
    (hrules : v.elements = .ok rules) (hrule : rule ∈ rules) : rule ∈ rulesOf mapping := by
  rw [getD_eq_ok] at hbyTag
  have hmember := need_eq_ok.1 hv
  refine List.mem_append_right _
    (List.mem_flatMap.2 ⟨(tag, v), ?_, (itemsOf_eq hrules).symm ▸ hrule⟩)
  rw [hbyTag.2]
  exact Table.mem_of_get? hmember

variable {setup : Setup}

section Walk

variable {K : (α : Type) → Sketching α → Prop} (hK : Composes K) {sort : Json → Prop}
  (hnote : ∀ kind expression reason, K _ (note setup.outline kind expression reason))
  (hthing : ∀ type value confidence details edge?, sort type → AreDetails details →
    K _ (nameThing setup.outline "Template" type value confidence details edge?))
include hK hnote hthing

lemma walk_emitValue (hrule : ∀ type, rule.need "target_node_type" = .ok type → sort type)
    (value : String) (line : Nat) (around : Json) :
    K _ (emitValue setup rule value line around) := by
  refine hK.lift_bind fun marks _ ↦ hK.lift_bind fun mark? _ ↦ ?_
  split
  · exact hnote _ _ _
  · split
    · exact hnote _ _ _
    · refine hK.lift_bind fun type htype ↦ hK.lift_bind fun edge _ ↦ ?_
      rw [emitNode, emitNode_bind_linkTo]
      exact hthing _ _ _ _ _ (hrule type htype) (by simp [AreDetails, Table.keys])

lemma walk_visitTag (hrules : ∀ rule ∈ rulesOf setup.outline.mapping, ∀ type,
    rule.need "target_node_type" = .ok type → sort type) (tag : Markup.Tag) :
    K _ (visitTag setup tag) := by
  have hvalue {rule : Json} (hrule : rule ∈ rulesOf setup.outline.mapping) (value : String)
    (around : Json) := walk_emitValue hK hnote hthing (hrules rule hrule) value tag.line around
  refine hK.lift_bind fun v hv ↦ hK.lift_bind fun rules hrules ↦
    hK.bind (hK.forIn (fun rule hrule _ ↦ hK.lift_bind fun value? _ ↦ ?_) _) fun _ ↦
      hK.lift_bind fun byTag hbyTag ↦ hK.lift_bind fun held _ ↦ ?_
  · split
    · exact hK.bind (hvalue (mem_rulesOf_of_attribute hv hrules hrule) _ _) fun _ ↦ hK.pure _
    · exact hK.pure _
  · split
    · refine hK.lift_bind fun w hw ↦ hK.lift_bind fun rules hrules ↦
        hK.bind (hK.forIn (fun rule hrule _ ↦ hK.lift_bind fun holds _ ↦ ?_) _) fun _ ↦ hK.pure _
      split
      · refine hK.lift_bind fun value? _ ↦ ?_
        split
        · exact hK.bind (hvalue (mem_rulesOf_of_tag hbyTag hw hrules hrule) _ _) fun _ ↦ hK.pure _
        · exact hK.pure _
      · exact hK.pure _
    · exact hK.pure _

end Walk

lemma reads {sort : Json → Prop} (h : ∀ rule ∈ rulesOf setup.outline.mapping, ∀ type,
    rule.need "target_node_type" = .ok type → sort type) : (reader setup).Reads sort where
  details _ := by simp [reader, AreDetails, Table.keys]
  read hK hnote hthing text := by
    refine hK.bind (hK.forM fun tag _ ↦ walk_visitTag hK hnote hthing h tag) fun _ ↦ ?_
    split
    · exact hK.throw _
    · exact hK.pure _

end MarkupGraph

namespace StyleGraph

open Stylesheet (Match Finder)

/-- The rules of a mapping. -/
def rulesOf (mapping : Json) : List Json :=
  ((mapping.member? "patterns").getD (.obj [])).members.map Prod.snd

lemma rulesOf_eq {mapping patterns : Json} {word : String} {members : List (String × Json)}
    (hpatterns : mapping.getD "patterns" (.obj []) = .ok patterns)
    (hmembers : patterns.membersBy word = .ok members) :
    rulesOf mapping = members.map Prod.snd := by
  rw [rulesOf, (getD_eq_ok.1 hpatterns).2, members_of_ok hmembers]

variable {o : Outline}

section Walk

variable {K : (α : Type) → Sketching α → Prop} (hK : Composes K) {sort : Json → Prop}
  (hnote : ∀ kind expression reason, K _ (note o kind expression reason))
  (hthing : ∀ type value confidence details edge?, sort type → AreDetails details →
    K _ (nameThing o "Stylesheet" type value confidence details edge?))
include hK hnote

lemma walk_emitForbidden (strict : Json) (word kind reason : String) (finder : Finder)
    (cs : List Char) : K _ (emitForbidden o strict word kind reason finder cs) := by
  refine hK.lift_bind fun rule _ ↦ hK.lift_bind fun forbidden _ ↦ ?_
  split
  · refine hK.bind (hK.forIn (fun m _ _ ↦ ?_) _) fun _ ↦ hK.pure _
    exact hK.bind (hnote _ _ _) fun _ ↦ hK.pure _
  · exact hK.pure _

include hthing

lemma walk_emitMatch (hrule : ∀ type, rule.need "emit_node" = .ok type → sort type) (m : Match) :
    K _ (emitMatch o rule m) := by
  refine hK.lift_bind fun emits _ ↦ ?_
  extract_lets emitNamed
  have hnamed (u : Unit) : K _ (emitNamed u) := by
    refine hK.lift_bind fun emits _ ↦ ?_
    split
    · refine hK.lift_bind fun named _ ↦ ?_
      split
      · refine hK.lift_bind fun number _ ↦ hK.lift_bind fun value _ ↦
          hK.lift_bind fun type htype ↦ ?_
        rw [emitNode, emitNode_bind_linkTo]
        exact hthing _ _ _ _ _ (hrule type htype) (by simp [AreDetails, Table.keys])
      · exact hK.pure _
    · exact hK.pure _
  split
  · refine hK.lift_bind fun named _ ↦ ?_
    split
    · exact hK.lift_bind fun number _ ↦ hK.lift_bind fun target _ ↦ hK.bind (hnote _ _ _) hnamed
    · exact hnamed ()
  · exact hnamed ()

end Walk

lemma reads {sort : Json → Prop} (h : ∀ rule ∈ rulesOf o.mapping, ∀ type,
    rule.need "emit_node" = .ok type → sort type) : (reader o).Reads sort where
  details _ := by simp [reader, AreDetails, Table.keys]
  read hK hnote hthing text := by
    refine hK.lift_bind fun strict _ ↦ hK.bind (walk_emitForbidden hK hnote _ _ _ _ _ _) fun _ ↦
      hK.bind (walk_emitForbidden hK hnote _ _ _ _ _ _) fun _ ↦
      hK.lift_bind fun patterns hpatterns ↦
      hK.lift_bind fun members hmembers ↦ hK.bind (hK.forIn (fun e he _ ↦ ?_) _) fun _ ↦ hK.pure _
    have hrule := h e.2 (rulesOf_eq hpatterns hmembers ▸ List.mem_map_of_mem he)
    refine hK.bind (hK.lift_bind fun pattern _ ↦ hK.lift_bind fun found _ ↦
      hK.bind (hK.forIn (fun m _ _ ↦ ?_) _) fun _ ↦ hK.pure _) fun _ ↦ hK.pure _
    exact hK.bind (walk_emitMatch hK hnote hthing hrule m) fun _ ↦ hK.pure _

end StyleGraph
open Fallible Stepwise CodeAtlas.Graph MarkupGraph Sketch

variable {sources : List Source}

/-- Whether a rule names a kind of things under a word, if it names one at all. -/
def namesThing (fileKind word : String) (rule : Json) : Bool :=
  match rule.member? word with
  | some (.str kind) => isThing fileKind kind
  | some _ => false
  | none => true

/-- A type is the name of a kind of things. -/
def IsThing (fileKind : String) (type : Json) :
    Prop := ∃ kind, type = .str kind ∧ isThing fileKind kind = true

lemma isThing_of_need {fileKind word : String} {rule type : Json}
    (h : namesThing fileKind word rule = true) (htype : rule.need word = .ok type) :
    IsThing fileKind type := by
  rw [namesThing, need_eq_ok.1 htype] at h
  cases type with
  | str kind => exact ⟨kind, rfl, h⟩
  | _ => cases h

lemma idFor_of_isThing {fileKind name kind : String} {s : Sketch} (hs : s.file = some name)
    (hkind : isThing fileKind kind = true) (value : String) :
    s.idFor fileKind kind value = scopedId name kind value := by
  have hother : ¬(str kind).same fileKind = true := fun hsame ↦
    (isThing_iff.1 hkind).2.1 (str.inj (same_str.1 hsame))
  rw [idFor, if_neg hother, fileJson, hs]
  rfl

/-- A reader by the core schema that names nothing but things. -/
structure Reader.Sound (r : Reader) : Prop where
  rules : r.outline.rules = coreRules
  reads : r.Reads (IsThing r.fileKind)

namespace Reader.Sound

variable {r : Reader} (hr : r.Sound)
include hr

lemma keeps_visit {source : Source} {Q P : Sketch → Prop} {There : String → String → Sketch → Prop}
    (h : Carries r.fileKind source.name Q P There) : Keeps Q (r.visit source) := by
  have hticket := keeps_emitTicket_of h.issue h.ticket r.outline
  refine .lift_bind fun text _ s hs ↦
    h.closes _ (hr.reads.read (Keeps.composes P) (fun kind expression reason ↦ ?_)
    (fun type value confidence details edge? htype hdetails ↦ ?_) text _
    (h.opens s hs _ _ (hr.reads.details text)))
  · exact .get_bind fun s hs ↦ hticket _ _ _ _ _ s hs
  · obtain ⟨kind, rfl, hkind⟩ := htype
    refine .get_bind fun s hs ↦ ?_
    rw [idFor_of_isThing (h.file s hs) hkind]
    obtain ⟨hnamed, hthere⟩ := h.thing s hs kind value confidence details hkind hdetails
    refine after_lift_bind hnamed fun edge? _ ↦ ?_
    cases edge? with
    | some edge =>
      exact after_emitEdge hr.rules hnamed hticket
        (fun key word ↦ h.edge _ key word _ _ hnamed hthere) edge
    | none => exact hnamed

lemma carried {issued : Nat} {Q : Sketch → Prop} (hstart : Q { draft := { issued } })
    (hlog : ∀ s entry, Q s → Q { s with draft := s.draft.addLog entry })
    (h : ∀ source ∈ sources, ∃ P There, Carries r.fileKind source.name Q P There) :
    Q (sources.foldl r.add { draft := { issued } }) := by
  refine List.foldlRecOn sources r.add hstart fun s hs source hsource ↦ ?_
  obtain ⟨P, There, hP⟩ := h source hsource
  rw [add]
  split
  next hrun => exact (hr.keeps_visit hP).of_ok hs hrun
  next hrun => exact hlog _ _ ((hr.keeps_visit hP).of_error hs hrun)

lemma proper (issued : Nat) (hkind : r.fileKind ∈ coreKinds)
    (hsources : ∀ source ∈ sources, source.name ≠ "" ∧ Undivided source.name) :
    (sources.foldl r.add { draft := { issued } }).Proper r.fileKind := by
  refine hr.carried (proper_start _ issued) (fun _ entry hs ↦ hs.addLog entry)
    fun source hsource ↦ ?_
  obtain ⟨hne, hname⟩ := hsources source hsource
  exact ⟨_, _, carries_reading hname hne hkind⟩

end Reader.Sound

lemma MarkupGraph.proper_ofSources {setup : Setup} (h : (reader setup).Sound) (issued : Nat)
    (hsources : ∀ source ∈ sources, source.name ≠ "" ∧ Undivided source.name) :
    (ofSources setup issued sources).Proper "Template" :=
    h.proper issued (show "Template" ∈ _ by decide) hsources

lemma StyleGraph.proper_ofSources {o : Outline} (h : (reader o).Sound) (issued : Nat)
    (hsources : ∀ source ∈ sources, source.name ≠ "" ∧ Undivided source.name) :
    (ofSources o issued sources).Proper "Stylesheet" :=
    h.proper issued (show "Stylesheet" ∈ _ by decide) hsources

lemma exists_markup : ∃ markup, Setup.ofDocuments Catalog.htmlInstructions
    Catalog.htmlMapping coreRules = .ok markup ∧ (reader markup).Sound := by
  have hthings : ∀ rule ∈ rulesOf Catalog.htmlMapping,
      namesThing "Template" "target_node_type" rule = true := by decide +kernel
  exact ⟨_, rfl, rfl, reads fun rule hrule _ htype ↦ isThing_of_need (hthings rule hrule) htype⟩

lemma exists_styles : ∃ styles, StyleGraph.outlineOf Catalog.cssInstructions Catalog.cssMapping
    coreRules = .ok styles ∧ (StyleGraph.reader styles).Sound := by
  have hthings : ∀ rule ∈ StyleGraph.rulesOf Catalog.cssMapping,
      namesThing "Stylesheet" "emit_node" rule = true := by decide +kernel
  exact ⟨_, rfl, rfl, StyleGraph.reads fun rule hrule _ htype ↦
    isThing_of_need (hthings rule hrule) htype⟩

/-- Under the documents that come with the builders, the graphs of markup and of stylesheets pass
the check, whatever the files hold and whether they can be read or not. -/
theorem markup_and_styles_pass (issued : Nat) {sources : List Source}
    (header : List (String × Json)) (file : String)
    (hsources : ∀ source ∈ sources, source.name ≠ "" ∧ Text.occursIn "::" source.name = false) :
    EdgeRules.ofDocument Catalog.coreEdges = .ok coreRules ∧
    CoreSchema.edgeTypesOf Catalog.coreEdges = .ok coreRules ∧
    ∃ markup styles,
      MarkupGraph.Setup.ofDocuments Catalog.htmlInstructions Catalog.htmlMapping coreRules =
        .ok markup ∧
      StyleGraph.outlineOf Catalog.cssInstructions Catalog.cssMapping coreRules = .ok styles ∧
      (MarkupGraph.ofSources markup issued sources).draft.Passes header file ∧
      (StyleGraph.ofSources styles issued sources).draft.Passes header file := by
  obtain ⟨markup, hmarkup, hmarkupSound⟩ := exists_markup
  obtain ⟨styles, hstyles, hstylesSound⟩ := exists_styles
  have hnames (source : Source) (hsource : source ∈ sources) :
      source.name ≠ "" ∧ Undivided source.name :=
    ⟨(hsources source hsource).1, undivided_iff.2 (hsources source hsource).2⟩
  have hmarkupProper := MarkupGraph.proper_ofSources hmarkupSound issued hnames
  have hstylesProper := StyleGraph.proper_ofSources hstylesSound issued hnames
  refine ⟨ofDocument_coreEdges, edgeTypesOf_coreEdges, markup, styles, hmarkup, hstyles, ?_, ?_⟩
  · exact hmarkupProper.built.passes (fun e he ↦ hmarkupProper.fits he) header file
  · exact hstylesProper.built.passes (fun e he ↦ hstylesProper.fits he) header file

/-- Files that name things with two colons in them, and one that cannot be read. -/
def colonSources : List Source :=
  [⟨"shop.html", "/p/shop.html", .ok "<link href=\"::shop.css\"><img src=\"a::Template::b\">"⟩,
   ⟨"lost.html", "/p/lost.html", .error .malformedSource⟩]

theorem markup_and_styles_pass_colons :
    (∀ source ∈ colonSources, source.name ≠ "" ∧ Text.occursIn "::" source.name = false) ∧
    ∃ markup, MarkupGraph.Setup.ofDocuments Catalog.htmlInstructions Catalog.htmlMapping coreRules =
        .ok markup ∧
      (MarkupGraph.ofSources markup 0 colonSources).draft.Passes [] "fragment_html.json" := by
  have hnames : ∀ source ∈ colonSources,
      source.name ≠ "" ∧ Text.occursIn "::" source.name = false := by
    intro source hsource
    simp only [colonSources, List.mem_cons, List.not_mem_nil, or_false] at hsource
    rcases hsource with rfl | rfl
    · decide
    · decide
  obtain ⟨-, -, markup, styles, hmarkup, -, hpass, -⟩ :=
    markup_and_styles_pass 0 [] "fragment_html.json" hnames
  exact ⟨hnames, markup, hmarkup, hpass⟩

end CodeAtlas.Build
