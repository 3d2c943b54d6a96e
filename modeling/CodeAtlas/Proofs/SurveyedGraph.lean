import CodeAtlas.Proofs.BuiltGraph
import CodeAtlas.Proofs.ReferenceTasks

/-!
# Graphs of definitions and references

The registry of a survey holds the last node of each id, and an edge is added only where the core
schema permits it between registered nodes. The first pass still registers nodes after it has added
edges: a class gives up its kind to a function of the same name, and the edges to its members no
longer fit. The second pass registers nothing, so that all its edges fit.
-/

namespace CodeAtlas.Build

open Fallible Stepwise CodeAtlas.Graph CodeAtlas.Graph.Conformance List Survey Table

variable {s : Survey} {details : List (String × Json)} {P : Survey → Prop} {sources : List Source}
  {n type : Json} {path : String} {source : Source}
variable {id kind : String}

/-! ## Ids -/

lemma splitListBy_ne_nil (separator : List Char) (steps : Nat) (piece rest : List Char) :
    Text.splitListBy separator steps piece rest ≠ [] := by
  fun_induction Text.splitListBy separator steps piece rest with
  | case1 => simp
  | case2 => simp
  | case3 => simp
  | case4 _ _ _ _ _ ih => exact ih

lemma eq_of_splitListBy_eq_singleton {separator piece rest whole : List Char} {steps : Nat}
    (h : Text.splitListBy separator steps piece rest = [whole]) :
    whole = piece.reverse ++ rest := by
  fun_induction Text.splitListBy separator steps piece rest with
  | case1 => simpa using h.symm
  | case2 => simpa using h.symm
  | case3 => exact absurd (List.cons.inj h).2 (splitListBy_ne_nil _ _ _ _)
  | case4 _ _ _ _ _ ih => simpa using ih h

/-- Replacing leaves a text as it is, or what is put in stands in the outcome. -/
lemma replace_eq_or_infix (old new text : String) :
    Text.replace old new text = text ∨ new.toList <:+: (Text.replace old new text).toList := by
  rw [Text.replace, Text.splitBy]
  match h : Text.splitListBy old.toList text.length [] text.toList with
  | [] => exact absurd h (splitListBy_ne_nil _ _ _ _)
  | [whole] =>
    rw [map_singleton, String.intercalate_singleton, eq_of_splitListBy_eq_singleton h]
    exact .inl (by simp)
  | first :: second :: rest =>
    exact .inr ⟨first, (String.intercalate new (.ofList second :: rest.map .ofList)).toList,
      by simp [String.toList_append]⟩

lemma fileId_ne {text : String} {c : Char} (hpath : c ∈ path.toList) (htext : c ∉ text.toList)
    (hslash : '/' ∉ text.toList) : fileId path ≠ text := by
  rintro rfl
  rcases replace_eq_or_infix "\\" "/" path with heq | hput
  · exact htext (by rwa [fileId, heq])
  · exact hslash (hput.subset mem_cons_self)

lemma fileId_ne_empty (h : path ≠ "") : fileId path ≠ "" := by
  obtain ⟨c, rest, hlist⟩ := exists_cons_of_ne_nil (mt String.toList_eq_nil_iff.1 h)
  exact fileId_ne (hlist ▸ mem_cons_self) (by simp) (by simp)

lemma symbolId_ne_empty (parent name : String) : symbolId parent name ≠ "" := by
  simp [symbolId, String.append_eq_empty_iff]

/-! ## Surveys -/

/-- An edge that leads from a definition to one inside it. -/
def Encloses (e : Json) : Prop :=
  e.member? "edge" = some (.str "defines") ∨ e.member? "edge" = some (.str "contains_member")

namespace Survey

/-- Every registered node is the last one of its id, and edges are of some kind. -/
structure Tracks (E : List Json → Json → Prop) (s : Survey) : Prop where
  built : s.draft.Built
  registered : ∀ id n, s.registry.get? id = some n →
    ∃ kind, Named n id kind ∧ n ∈ s.draft.nodes ∧ lastKind? s.draft.nodes id = some (.str kind)
  edges : ∀ e ∈ s.draft.edges, E s.draft.nodes e

/-- A survey as the first pass makes it. -/
abbrev Defining : Survey → Prop := Tracks fun _ ↦ Encloses

/-- A survey as the second pass makes it. -/
abbrev Referring : Survey → Prop := Tracks fun nodes e ↦ Encloses e ∨ Draft.Fits { nodes } e

lemma Tracks.register (h : s.Defining) (hnamed : Named n id kind) (hid : id ≠ "")
    (hkind : kind ∈ coreKinds) : (s.register id n).Defining := by
  refine ⟨h.built.addNode ⟨id, kind, hnamed, hid, hkind⟩, fun other m hm ↦ ?_, h.edges⟩
  rw [Survey.register, get?_put] at hm
  show ∃ kind, Named m other kind ∧ m ∈ s.draft.nodes ++ [n] ∧
    lastKind? (s.draft.nodes ++ [n]) other = some kind
  rw [lastKind?_concat s.draft.nodes hnamed]
  split at hm
  next heq =>
    obtain rfl := heq
    cases hm
    exact ⟨kind, hnamed, mem_append_right _ mem_cons_self, if_pos rfl⟩
  next hne =>
    obtain ⟨kind', hnamed', hmem, hlast⟩ := h.registered other m hm
    exact ⟨kind', hnamed', mem_append_left _ hmem, (if_neg hne).trans hlast⟩

variable {E : List Json → Json → Prop}

lemma Tracks.addLog (h : Tracks E s) (entry : Json) :
    Tracks E { s with draft := s.draft.addLog entry } :=
  ⟨h.built.addLog entry, h.registered, h.edges⟩

lemma keeps_emitTicket (setup : Setup) (kind expression reason scope confidence : String) :
    Keeps (Tracks E) (emitTicket setup kind expression reason scope confidence) :=
  keeps_emitTicket_of (fun _ hs ↦ ⟨hs.built.issue, hs.registered, hs.edges⟩)
    (fun _ t resolver hs ↦ ⟨hs.built.addTicket t resolver, hs.registered, hs.edges⟩) _ _ _ _ _

lemma Tracks.of_node? (h : Tracks E s) (hn : s.node? id = some n) :
    ∃ kind, n.need "node_type" = .ok (.str kind) ∧
      s.draft.HasNode id kind ∧ lastKind? s.draft.nodes id = some (.str kind) := by
  obtain ⟨kind, hnamed, hmem, hlast⟩ := h.registered id n (Option.filter_eq_some_iff.1 hn).1
  exact ⟨kind, Json.need_eq_ok.2 hnamed.kind, ⟨n, hmem, hnamed⟩, hlast⟩

lemma joins_of_areDetails (h : AreDetails details) (kind source target : String) :
    Joins (.obj (merge
      [("edge", .str kind), ("from", .str source), ("to", .str target)] details))
      kind source target :=
  ⟨member?_of_areDetails h (by simp) _, member?_of_areDetails h (by simp) _,
    member?_of_areDetails h (by simp) _⟩

/-- An edge between registered nodes fits when it is added; otherwise there is at most a ticket. -/
lemma keeps_emitEdge {setup : Setup} (hrules : setup.schema.rules = coreRules)
    {relation source target : String} (hdetails : AreDetails details)
    (hadd : ∀ nodes kind e, setup.schema.edgeType relation = .ok (.str kind) →
      Joins e kind source target → Draft.Fits { nodes } e → E nodes e) :
    Keeps (Tracks E) (emitEdge setup relation source target details) := by
  refine keeps_emitEdge_of (keeps_emitTicket setup) fun s edge hs hadmits ↦ ?_
  obtain ⟨ha, hb, hedge, hsourceType, htargetType, hallowed⟩ := hadmits
  obtain ⟨A, hA, hsource, hlastA⟩ := hs.of_node? ha
  obtain ⟨B, hB, htarget, hlastB⟩ := hs.of_node? hb
  cases hA.symm.trans hsourceType
  cases hB.symm.trans htargetType
  rw [hrules] at hallowed
  obtain ⟨kind, rfl, hpermits⟩ := permits_of_allows hallowed
  have hjoins := joins_of_areDetails hdetails kind source target
  refine ⟨hs.built.addEdge ⟨kind, source, target, A, B, hjoins, hsource, htarget, hpermits⟩,
    hs.registered,
    forall_mem_append.2 ⟨hs.edges, forall_mem_singleton.2 (hadd _ kind _ hedge hjoins ?_)⟩⟩
  exact ⟨kind, source, target, A, B, hjoins, hlastA, hlastB, hpermits⟩

end Survey

/-- A build by the core schema, whose mapping names kinds of the schema for definitions, and no
edges but `defines` and `contains_member` between a definition and one inside it. -/
structure Setup.Sound (setup : Setup) : Prop where
  rules : setup.schema.rules = coreRules
  kinds : ∀ definition ∈ ["Module", "ClassDef", "FunctionDef", "Assign", "AnnAssign"],
    ∃ kind ∈ coreKinds, setup.schema.nodeType definition = .ok (.str kind)
  edges : ∀ relation ∈ ["defines", "defines_class", "defines_function", "contains_variable",
      "contains_method"],
    ∃ edge ∈ [Json.null, .str "defines", .str "contains_member"],
      setup.schema.edgeType relation = .ok edge

variable {setup : Setup}

lemma Survey.keeps_emitEnclosing (hsetup : setup.Sound) {relation : String}
    (hrelation : relation ∈ ["defines", "defines_class", "defines_function", "contains_variable",
      "contains_method"]) (source target : String) :
    Keeps Defining (emitEdge setup relation source target []) := by
  refine keeps_emitEdge hsetup.rules areDetails_nil fun _ kind e hkind hjoins _ ↦ ?_
  obtain ⟨edge, hedge, htype⟩ := hsetup.edges relation hrelation
  cases htype.symm.trans hkind
  rw [Encloses, hjoins.kind]
  simpa using hedge

/-! ## First pass -/

namespace Definitions

open Script (Node)

lemma named_fileNode (source : Source) (text kind : String) (n : Node) :
    Named (fileNode source text kind n) (fileId source.name) kind := by
  refine ⟨rfl, rfl, ?_⟩
  rw [fileNode, Json.member?_obj, get?_append, get?_documentation (by decide)]
  rfl

lemma Describes.named {name : String} {node : Json} (h : Describes name id (.str kind) node) :
    Named node id kind := ⟨h.id, h.type, h.untyped⟩

lemma exists_kind (hsetup : setup.Sound) (htype : IsType setup type) :
    ∃ kind ∈ coreKinds, type = .str kind := by
  rcases htype with rfl | ⟨definition, hdefinition, htype⟩
  · exact ⟨"Method", by decide, rfl⟩
  · obtain ⟨kind, hkind, htype'⟩ := hsetup.kinds definition (mem_cons_of_mem _ hdefinition)
    exact ⟨kind, hkind, Except.ok.inj (htype.symm.trans htype')⟩

lemma Registers.named {own : String → Prop} {node : Json} (hsetup : setup.Sound)
    (h : Registers setup path own id node) : ∃ kind ∈ coreKinds, Named node id kind := by
  cases h with
  | file text n _ htype =>
    obtain ⟨kind, hkind, htype'⟩ := hsetup.kinds "Module" (by simp)
    obtain rfl := Except.ok.inj (htype.symm.trans htype')
    exact ⟨kind, hkind, named_fileNode _ text kind n⟩
  | symbol _ htype h =>
    obtain ⟨kind, hkind, rfl⟩ := exists_kind hsetup htype
    exact ⟨kind, hkind, h.named⟩

lemma keeps_defining_step (hsetup : setup.Sound) {step : Step}
    (h : step.Arises setup path (· ≠ "")) : Keeps Defining (step.run setup) := by
  have hregister {id : String} {node : Json} (hid : id ≠ "")
    (h : Registers setup path (· ≠ "") id node) :
      Keeps Defining (modify fun s ↦ s.register id node : Surveying PUnit) := by
    obtain ⟨kind, hkind, hnamed⟩ := h.named hsetup
    exact .of_modify fun _ hs ↦ hs.register hnamed hid hkind
  cases h with
  | fail f => exact .throw f
  | register hid h => exact hregister hid h
  | once hrelation _ hid h =>
    refine .get_bind fun s hs ↦ ?_
    split
    · exact Keeps.bind (hregister hid h) (fun _ ↦ keeps_emitEnclosing hsetup hrelation _ _) s hs
    · exact hs
  | link hrelation => exact keeps_emitEnclosing hsetup hrelation _ _
  | note kind expression reason scope confidence =>
    exact keeps_emitTicket setup _ _ _ _ _

end Definitions

/-! ## Both passes -/

lemma Survey.keepsRecords_referring (hrules : setup.schema.rules = coreRules) :
    KeepsRecords setup Referring where
  ticket := keeps_emitTicket setup
  edge _ _ _ _ hdetails := keeps_emitEdge hrules hdetails fun _ _ _ _ _ hfits ↦ .inr hfits
  log _ entry hs := hs.addLog entry

/-- All edges of a survey fit, except some from a definition to one inside it. -/
lemma referring_surveySources (hsetup : setup.Sound) (issued : Nat)
    (hnames : ∀ source ∈ sources, source.name ≠ "") :
    (surveySources setup issued sources).Referring := by
  have hdefining : (firstPass setup issued sources).Defining := by
    refine List.foldlRecOn sources _ ⟨.empty issued, fun id n hn ↦ ?_, by simp⟩
      fun s hs source hsource ↦ ?_
    · cases hn
    · exact Definitions.addDefinitions_of_steps (fun id name _ ↦ symbolId_ne_empty id name)
        (fun _ entry hs ↦ hs.addLog entry) (fileId_ne_empty (hnames source hsource)) hs
        fun _ _ _ ↦ Definitions.keeps_defining_step hsetup
  exact References.surveySources_of_records (keepsRecords_referring hsetup.rules)
    ⟨hdefining.built, hdefining.registered, fun e he ↦ .inl (hdefining.edges e he)⟩

/-! ## The builder as it is configured -/

/-- The setup that the documents of the builder give. -/
def scriptSetup : Setup where
  schema :=
    { nodeNames := (Catalog.pythonMapping.member? "node_mappings").getD .null
      edgeNames := (Catalog.pythonMapping.member? "edge_mappings").getD .null
      rules := coreRules }
  instructions := Catalog.pythonInstructions

lemma ofDocuments_scriptSetup :
    Schema.ofDocuments Catalog.pythonMapping Catalog.coreEdges = .ok scriptSetup.schema := rfl

lemma sound_scriptSetup : scriptSetup.Sound := by
  refine ⟨rfl, fun definition hdefinition ↦ ?_, fun relation hrelation ↦ ?_⟩
  · simp only [mem_cons, not_mem_nil, or_false] at hdefinition
    rcases hdefinition with rfl | rfl | rfl | rfl | rfl
    all_goals exact ⟨_, by decide, rfl⟩
  · simp only [mem_cons, not_mem_nil, or_false] at hrelation
    rcases hrelation with rfl | rfl | rfl | rfl | rfl
    all_goals exact ⟨_, by decide, rfl⟩

def scriptDraft (issued : Nat) (sources : List Source) : Draft :=
  (surveySources scriptSetup issued sources).draft

lemma built_scriptDraft (issued : Nat) (hnames : ∀ source ∈ sources, source.name ≠ "") :
    (scriptDraft issued sources).Built :=
  (referring_surveySources sound_scriptSetup issued hnames).built

/-- The check of a survey completes, and the graph passes just if each edge from a definition to one
inside it is permitted between the kinds that both ends have in the end. No other edge can fail, and
an end of one that does has nodes of two kinds; without such ids the graph passes. -/
theorem survey_passes_iff (issued : Nat) {sources : List Source} (header : List (String × Json))
    (file : String) (hnames : ∀ source ∈ sources, source.name ≠ "") :
    Schema.ofDocuments Catalog.pythonMapping Catalog.coreEdges = .ok scriptSetup.schema ∧
    CoreSchema.edgeTypesOf Catalog.coreEdges = .ok coreRules ∧
    (∃ r, Conformance.check Catalog.coreNodes coreRules file
          ((scriptDraft issued sources).document header) = .ok r ∧
        (r.document.member? "status" = some (.str "pass") ↔
          ∀ e ∈ (scriptDraft issued sources).edges,
            Encloses e → (scriptDraft issued sources).Fits e)) ∧
    (∀ e ∈ (scriptDraft issued sources).edges, ¬(scriptDraft issued sources).Fits e →
      Encloses e ∧ ∃ id A B,
        (e.member? "from" = some (.str id) ∨ e.member? "to" = some (.str id)) ∧ A ≠ B ∧
        (scriptDraft issued sources).HasNode id A ∧ (scriptDraft issued sources).HasNode id B) ∧
    ((∀ id A B, (scriptDraft issued sources).HasNode id A →
        (scriptDraft issued sources).HasNode id B → A = B) →
      (scriptDraft issued sources).Passes header file) := by
  have hbuilt := built_scriptDraft issued hnames
  have hfitsOr (e : Json) (he : e ∈ (scriptDraft issued sources).edges) :
      Encloses e ∨ (scriptDraft issued sources).Fits e :=
    (referring_surveySources sound_scriptSetup issued hnames).edges e he
  refine ⟨ofDocuments_scriptSetup, edgeTypesOf_coreEdges, ?_, fun e he hnot ↦ ?_, fun hsingle ↦ ?_⟩
  · obtain ⟨r, hr, hpasses⟩ := hbuilt.check header file
    refine ⟨r, hr, status_eq_pass.trans (hpasses.trans ⟨fun hfits e he _ ↦ hfits e he, ?_⟩)⟩
    intro hfits e he
    exact (hfitsOr e he).elim (hfits e he) id
  · exact ⟨(hfitsOr e he).resolve_right hnot, hbuilt.two_kinds_of_not_fits he hnot⟩
  · exact hbuilt.passes (fun e he ↦ hbuilt.fits_of_single hsingle he) header file

def shopSource : Source :=
  ⟨"a.py", "/p/a.py", .ok "class Shop:\n    def sell(self):\n        pass\n"⟩

theorem survey_passes_iff_shop :
    (scriptDraft 0 [shopSource]).edges.length = 2 ∧
      (scriptDraft 0 [shopSource]).Passes [] "fragment_python.json" := by
  have hnames : ∀ source ∈ [shopSource], source.name ≠ "" := by simp [shopSource]
  refine ⟨by decide +kernel, ?_⟩
  refine (survey_passes_iff 0 [] "fragment_python.json" hnames).2.2.2.2 ?_
  exact Draft.single_of_nodup (by decide +kernel)

/-- A shop that can sell, and then a function that takes its name. -/
def takenSource : Source :=
  ⟨"a.py", "/p/a.py",
    .ok "class Shop:\n    def sell(self):\n        pass\n\n\ndef Shop():\n    pass\n"⟩

theorem taken_name_fails : ∃ r,
    Conformance.check Catalog.coreNodes coreRules "fragment_python.json"
      ((scriptDraft 0 [takenSource]).document []) = .ok r ∧
      r.document.member? "status" = some (.str "fail") := by
  have hbuilt := built_scriptDraft 0
    (show ∀ source ∈ [takenSource], source.name ≠ "" by simp [takenSource])
  obtain ⟨r, hr, hpasses⟩ := hbuilt.check [] "fragment_python.json"
  refine ⟨r, hr, status_eq_fail.2 fun hpass ↦ ?_⟩
  have hedge : (scriptDraft 0 [takenSource]).edges[1]? = some (.obj
      [("edge", .str "contains_member"), ("from", .str "a.py::Shop"),
        ("to", .str "a.py::Shop::sell")]) := by
    decide +kernel
  have hlast : lastKind? (scriptDraft 0 [takenSource]).nodes "a.py::Shop" =
      some (.str "Function") := by
    decide +kernel
  exact Draft.not_fits_of_source ⟨rfl, rfl, rfl⟩ hlast (fun _ ↦ rfl)
    (hpasses.1 hpass _ (List.mem_of_getElem? hedge))

end CodeAtlas.Build
