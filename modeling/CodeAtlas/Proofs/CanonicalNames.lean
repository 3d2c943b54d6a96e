import CodeAtlas.Proofs.BuilderRuns
import CodeAtlas.Proofs.NamedThings
import CodeAtlas.Proofs.ProvenNames
import CodeAtlas.Proofs.Redirection
import CodeAtlas.Proofs.SeparateFiles

/-!
# Canonical names keep nodes apart

A builder knows a file by its path, and what is in the file by the path, two colons and more.
Merging keeps the second kind of ids and puts the kind of the file before the first. No path of a
file has two colons in it, so no two ids become one, in one fragment or in several.
-/

namespace CodeAtlas.Build

open Fallible Stepwise List Json CodeAtlas.Build.Language Survey
open CodeAtlas.Graph (Fragment allNodes merge nodesOf edgesOf)
open CodeAtlas.Graph.Merge (assignedId canonicalId nameOf rawId typeOf)

variable {node type : Json} {A : Json → Prop} {sources : List Source} {source : Source}
  {plan : Plan} {id : String} {s : Sketch}
variable {details : List (String × Json)} {kind name path : String} {l l' : Language} {n : Json}

/-! ## Ids of nodes -/

/-- A node of a file, as merging takes it: the file itself, or something in it. -/
structure IsNodeOf (kind path : String) (n : Json) : Prop where
  name : ∃ name, n.member? "name" = some (.str name)
  known : rawId n = .str path ∧ assignedId n = .ok (.str (kind ++ ":" ++ path)) ∨
    ∃ rest, rawId n = .str (path ++ "::" ++ rest) ∧ assignedId n = .ok (rawId n)

lemma IsNodeOf.exists_rawId (h : IsNodeOf kind path n) : ∃ id, rawId n = .str id := by
  rcases h.known with ⟨hraw, -⟩ | ⟨rest, hraw, -⟩ <;> exact ⟨_, hraw⟩

lemma rawId_of_named (h : Named n id kind) : rawId n = .str id := by
  rw [rawId, h.id, Option.getD_some]

lemma get_named (h : Named n id kind) (name : String) :
    n.get name = .ok ((n.member? name).getD .null) :=
  get_eq_ok.2 ⟨isObject_of_member? h.id, rfl⟩

lemma getD_named (h : Named n id kind) (name : String) (v : Json) :
    n.getD name v = .ok ((n.member? name).getD v) :=
  getD_eq_ok.2 ⟨isObject_of_member? h.id, rfl⟩

lemma typeOf_named (h : Named n id kind) (hkind : kind ≠ "") : typeOf n = .ok kind := by
  have htruthy : (Json.str kind).truthy = true := by simp [truthy, hkind]
  rw [typeOf, get_named h, get_named h, h.kind]
  simp only [bind, Except.bind, pure, Except.pure, Option.getD_some, orElse, htruthy, if_true]

lemma assignedId_of_path (h : Named n id "File") (hne : path ≠ "")
    (hpath : n.member? "file_path" = some (.str path)) :
    assignedId n = .ok (.str ("File" ++ ":" ++ path)) := by
  have htruthy : (Json.str path).truthy = true := by simp [truthy, hne]
  have hsame : (Json.str "File").same "File" = true := same_str.2 rfl
  rw [assignedId, typeOf_named h (by decide)]
  show canonicalId n "File" = _
  simp only [canonicalId, get_named h, getD_named h, hpath, Option.getD_some, bind, Except.bind,
    htruthy, hsame, Bool.and_self, if_true]
  rfl

lemma assignedId_of_no_path (h : Named n id kind) (hkind : kind ≠ "")
    (hname : n.member? "name" = some (.str name)) (hpath : n.member? "file_path" = none) :
    assignedId n = .ok (.str (if Text.occursIn "::" id then id else kind ++ ":" ++ name)) := by
  have hfalsy : null.truthy = false := rfl
  rw [assignedId, typeOf_named h hkind]
  show canonicalId n kind = _
  simp only [canonicalId, get_named h, getD_named h, hpath, hname, h.id, Option.getD_some,
    Option.getD_none, bind,
    Except.bind, hfalsy, Bool.false_and, holds, Bool.false_eq_true, if_false]
  split <;> rfl

/-- Something in the file of an id: its id goes on from that of the file, and it has a name and no
path. -/
structure IsInner (file : String) (n : Json) : Prop where
  named : ∃ rest kind, Named n (symbolId file rest) kind ∧ kind ≠ ""
  name : ∃ name, n.member? "name" = some (.str name)
  path : n.member? "file_path" = none

lemma IsInner.assignedId_eq {file : String} (h : IsInner file n) :
    ∃ rest, rawId n = .str (file ++ "::" ++ rest) ∧ assignedId n = .ok (rawId n) := by
  obtain ⟨rest, kind, hnamed, hkind⟩ := h.named
  obtain ⟨name, hname⟩ := h.name
  refine ⟨rest, rawId_of_named hnamed, ?_⟩
  rw [assignedId_of_no_path hnamed hkind hname h.path, symbolId,
    if_pos (occursIn_append file "::" rest), rawId_of_named hnamed, symbolId]

/-! ## Languages and their files -/

namespace Language

/-- The kind under which the files of a language stand. -/
def fileKind : Language → String
  | .python => "File"
  | .html => "Template"
  | .css => "Stylesheet"

/-- How the names of the files of a language end. -/
def ending : Language → List Char
  | .python => ['.', 'p', 'y']
  | .html => ['.', 'h', 't', 'm', 'l']
  | .css => ['.', 'c', 's', 's']

/-- What the builder of a language is told. -/
def instructions : Language → Json
  | .python => Catalog.pythonInstructions
  | .html => Catalog.htmlInstructions
  | .css => Catalog.cssInstructions

/-- How the constructs of a language become nodes and edges. -/
def mapping : Language → Json
  | .python => Catalog.pythonMapping
  | .html => Catalog.htmlMapping
  | .css => Catalog.cssMapping

/-- A path of a file of a language without pairs of colons and backslashes. -/
structure IsPath (l : Language) (path : String) : Prop where
  ends : l.ending <:+ path.toList
  undivided : Undivided path
  backslash : Text.occursIn "\\" path = false

lemma pieces_pattern (l : Language) : Text.Glob.pieces l.pattern = .run :: l.ending.map .exact := by
  cases l <;> rfl

lemma ending_unique {cs : List Char} (h : l.ending <:+ cs) (h' : l'.ending <:+ cs) : l = l' := by
  have hlast (l : Language) (h : l.ending <:+ cs) : cs.getLast? = l.ending.getLast? := by
    obtain ⟨front, rfl⟩ := h
    cases l <;> simp [ending]
  have hsame := (hlast l h).symm.trans (hlast l' h')
  cases l <;> cases l' <;> simp_all [ending]

lemma colon_notMem_fileKind (l : Language) : ':' ∉ l.fileKind.toList := by cases l <;> decide

lemma dot_mem (h : l.ending <:+ path.toList) : '.' ∈ path.toList :=
  h.subset (by cases l <;> decide)

lemma IsPath.ne_fileKind (h : l.IsPath path) : path.toList ≠ l'.fileKind.toList := by
  intro heq
  have hdot := dot_mem h.ends
  rw [heq] at hdot
  cases l' <;> exact absurd hdot (by decide)

lemma IsPath.ne_empty (h : l.IsPath path) : path ≠ "" := by
  rintro rfl
  have hends := suffix_nil.1 h.ends
  cases l <;> cases hends

/-- The id by which a builder knows a file. -/
def idOf : Language → String → String
  | .python, path => fileId path
  | _, path => path

/-- The path that the node of a file tells; only that of a script tells one. -/
def toldPath? : Language → String → Option Json
  | .python, path => some (.str path)
  | _, _ => none

/-- The node of a file. -/
structure IsFileNode (l : Language) (path : String) (n : Json) : Prop where
  named : Named n (l.idOf path) l.fileKind
  name : ∃ name, n.member? "name" = some (.str name) ∧ (l.toldPath? path = none → name = path)
  path : n.member? "file_path" = l.toldPath? path

/-- What a builder makes of a file: the node of the file, or something in it. -/
def IsPartOf (l : Language) (path : String) (n : Json) : Prop :=
  l.IsFileNode path n ∨ IsInner (l.idOf path) n

variable {n : Json}

lemma IsPath.idOf_eq (h : l.IsPath path) : l.idOf path = path := by
  cases l with
  | python => exact fileId_eq h.backslash
  | _ => rfl

lemma IsFileNode.assignedId_of_told_none (h : l.IsFileNode path n)
    (htold : l.toldPath? path = none) : assignedId n =
      .ok (.str (if Text.occursIn "::" (l.idOf path) then l.idOf path else l.fileKind ++
        ":" ++ path)) := by
  obtain ⟨name, hname, hsame⟩ := h.name
  obtain rfl := hsame htold
  exact assignedId_of_no_path h.named (by cases l <;> decide) hname (h.path.trans htold)

lemma IsFileNode.assignedId_eq (h : l.IsFileNode path n) (hpath : l.IsPath path) :
    assignedId n = .ok (.str (l.fileKind ++ ":" ++ path)) := by
  cases htold : l.toldPath? path with
  | none =>
    rw [h.assignedId_of_told_none htold, hpath.idOf_eq, undivided_iff.1 hpath.undivided]
    rfl
  | some told =>
    cases l with
    | python => exact assignedId_of_path h.named hpath.ne_empty h.path
    | _ => cases htold

lemma IsPartOf.exists_name (h : l.IsPartOf path n) :
    ∃ name, n.member? "name" = some (.str name) := by
  rcases h with h | h
  · obtain ⟨name, hname, -⟩ := h.name
    exact ⟨name, hname⟩
  · exact h.name

lemma IsPartOf.exists_rawId (h : l.IsPartOf path n) : ∃ id, rawId n = .str id := by
  rcases h with h | h
  · exact ⟨_, rawId_of_named h.named⟩
  · obtain ⟨rest, hraw, -⟩ := h.assignedId_eq
    exact ⟨_, hraw⟩

lemma IsPartOf.isNodeOf (h : l.IsPartOf path n) (hpath : l.IsPath path) :
    IsNodeOf l.fileKind path n := by
  refine ⟨h.exists_name, ?_⟩
  rcases h with h | h
  · refine .inl ⟨?_, h.assignedId_eq hpath⟩
    rw [rawId_of_named h.named, hpath.idOf_eq]
  · exact .inr (hpath.idOf_eq ▸ h.assignedId_eq)

end Language

/-! ## No two ids become one -/

lemma toList_labelled (kind path : String) :
    (kind ++ ":" ++ path).toList = kind.toList ++ ':' :: path.toList := by
  simp [String.toList_append]

lemma toList_symbolId (path rest : String) :
    (path ++ "::" ++ rest).toList = path.toList ++ ':' :: ':' :: rest.toList := by
  simp [String.toList_append]

lemma labelled_ne_scoped {k p q rest : List Char} (hk : ':' ∉ k) (hp : ¬[':', ':'] <:+: p)
    (hq : q ≠ k) : k ++ ':' :: p ≠ q ++ ':' :: ':' :: rest := by
  intro h
  rcases append_eq_append_iff.1 h with ⟨x, rfl, hx⟩ | ⟨x, rfl, hx⟩
  -- the path of the second goes on where the kind of the first ends, or is a part of it
  · cases x with
    | nil => exact hq (append_nil k)
    | cons c x =>
      rw [cons_append, List.cons.injEq] at hx
      exact hp ⟨x, rest, by rw [hx.2]; simp⟩
  · cases x with
    | nil => exact hq (append_nil q).symm
    | cons c x =>
      rw [cons_append, List.cons.injEq] at hx
      exact hk (mem_append_right _ (hx.1 ▸ mem_cons_self))

lemma IsNodeOf.assignedId_eq_iff {path' : String} (hpath : l.IsPath path)
    (hpath' : l'.IsPath path') {m : Json} (hm : IsNodeOf l.fileKind path m)
    (hn : IsNodeOf l'.fileKind path' n) : assignedId m = assignedId n ↔ rawId m = rawId n := by
  have hmixed {l l' : Language} {path path' rest : String} (hpath : l.IsPath path)
      (hpath' : l'.IsPath path') :
      l.fileKind ++ ":" ++ path ≠ path' ++ "::" ++ rest ∧ path ≠ path' ++ "::" ++ rest := by
    constructor
    · intro heq
      have hlist := congrArg String.toList heq
      rw [toList_labelled, toList_symbolId] at hlist
      exact labelled_ne_scoped l.colon_notMem_fileKind hpath.undivided hpath'.ne_fileKind hlist
    · rintro rfl
      exact hpath.undivided ⟨path'.toList, rest.toList, by simp [String.toList_append]⟩
  rcases hm.known with ⟨hraw, hid⟩ | ⟨rest, hraw, hid⟩
  · rcases hn.known with ⟨hraw', hid'⟩ | ⟨rest', hraw', hid'⟩
    · rw [hid, hid', hraw, hraw', Except.ok.injEq, str.injEq, str.injEq]
      constructor
      · intro heq
        have hlist := congrArg String.toList heq
        rw [toList_labelled, toList_labelled] at hlist
        exact String.toList_inj.1 (eq_of_labelled_eq l.colon_notMem_fileKind
          l'.colon_notMem_fileKind hlist).2
      · rintro rfl
        rw [ending_unique hpath.ends hpath'.ends]
    · rw [hid, hid', hraw, hraw', Except.ok.injEq, str.injEq, str.injEq]
      exact iff_of_false (hmixed hpath hpath').1 (hmixed hpath hpath').2
  · rcases hn.known with ⟨hraw', hid'⟩ | ⟨rest', hraw', hid'⟩
    · rw [hid, hid', hraw, hraw', Except.ok.injEq, str.injEq, str.injEq]
      exact iff_of_false (hmixed hpath' hpath).1.symm (hmixed hpath' hpath).2.symm
    · rw [hid, hid', Except.ok.injEq]

/-! ## Graphs of scripts -/

namespace Definitions

open Script (Node)

lemma isFileNode_fileNode (h : source.name = path) (text : String) (n : Node) :
    python.IsFileNode path (fileNode source text "File" n) := by
  subst h
  exact ⟨named_fileNode source text "File" n, ⟨_, rfl, fun h ↦ by cases h⟩, rfl⟩

lemma Registers.isPartOf (h : Registers scriptSetup path (IsIdOf (fileId path)) id node) :
    python.IsPartOf path node := by
  cases h with
  | file text n hsource htype =>
    have hfile : scriptSetup.schema.nodeType "Module" = .ok "File" := rfl
    obtain rfl := Except.ok.inj (hfile.symm.trans htype)
    exact .inl (isFileNode_fileNode hsource text n)
  | @symbol _ name _ _ hparent htype h =>
    obtain ⟨kind, hkind, rfl⟩ := exists_kind sound_scriptSetup htype
    obtain ⟨rest, hid⟩ := hparent.exists_rest name
    exact .inr ⟨⟨rest, kind, hid ▸ h.named, ne_empty_of_mem_coreKinds hkind⟩,
      ⟨name, h.name⟩, h.path⟩

end Definitions

/-- A node of a graph of scripts comes from a source that can be read. -/
def IsScripted (sources : List Source) (n : Json) : Prop :=
  ∃ source ∈ sources, (∃ parsed, source.tree = .ok parsed) ∧ Language.python.IsPartOf source.name n

lemma isScripted_scriptDraft (issued : Nat) (hn : n ∈ (scriptDraft issued sources).nodes) :
    IsScripted sources n := by
  have hdefined : AllNodes (IsScripted sources) (firstPass scriptSetup issued sources) := by
    refine List.foldlRecOn sources _ (fun n hn ↦ absurd hn not_mem_nil) fun s hs source hsource ↦ ?_
    refine Definitions.addDefinitions_of_steps (fun id name (hid : IsIdOf (fileId source.name) id) ↦
      hid.symbolId name) (fun _ _ hs ↦ hs) (.inl rfl) hs fun parsed hparsed step hstep ↦ ?_
    refine step.keeps_run (fun id node hnode s hs ↦ ?_) keepsRecords_within
    exact forall_mem_append.2 ⟨hs, forall_mem_singleton.2
      ⟨source, hsource, ⟨parsed, hparsed⟩, (hstep.registers hnode).2.isPartOf⟩⟩
  exact References.surveySources_of_records keepsRecords_within hdefined n hn

/-! ## Edges -/

def Linkable (e : Json) : Prop :=
  e.IsObject ∧ ∃ key, Graph.Merge.linkKey? (Graph.Merge.written e) = some key

lemma linkable_of_joins {e : Json} {source target A B : String} (h : Joins e kind source target)
    (hpermits : permits kind A B = true) : Linkable e := by
  have hkind : kind ≠ "" := by
    rintro rfl
    exact absurd hpermits (by simp [permits, show coreRules.get? "" = none from rfl])
  have htruthy : (Json.str kind).truthy = true := by simp [truthy, hkind]
  refine ⟨isObject_of_member? h.source, (.str kind, .str source, .str target), ?_⟩
  rw [Graph.Merge.linkKey?_eq_some, Graph.Merge.written, h.kind, h.source, h.target,
    Option.getD_some, Option.getD_some, Option.getD_some, orElse, if_pos htruthy]
  exact ⟨rfl, rfl, rfl⟩

/-! ## Graphs of markup and stylesheets -/

namespace Sketch

/-- All nodes of a sketch are of some kind, and its edges serve merging. -/
def Within (A : Json → Prop) (s : Sketch) : Prop :=
  (∀ n ∈ s.draft.nodes, A n) ∧ ∀ e ∈ s.draft.edges, Linkable e

lemma Within.addNode (hs : Within A s) {confidence : String}
    (hnode : A (nodeDocument type name id confidence details)) :
    Within A (s.addNode type name id confidence details) := by
  rw [Sketch.addNode]
  split
  · exact hs
  · exact ⟨forall_mem_append.2 ⟨hs.1, forall_mem_singleton.2 hnode⟩, hs.2⟩

variable {value confidence : String}

lemma isFileNode_nodeDocument (hdetails : AreDetails details) (hid : l.idOf name = name)
    (htold : l.toldPath? name = none) :
    l.IsFileNode name (nodeDocument l.fileKind name name confidence details) := by
  refine ⟨?_, ⟨name, member?_nodeDocument hdetails (by simp), fun _ ↦ rfl⟩, ?_⟩
  · rw [hid]
    exact named_nodeDocument hdetails
  · rw [htold]
    exact member?_nodeDocument hdetails (by simp)

lemma isInner_scoped (hdetails : AreDetails details) (hkind : kind ≠ "") :
    IsInner name (nodeDocument kind value (scopedId name kind value) confidence details) := by
  have hid : scopedId name kind value = symbolId name (kind ++ "::" ++ value) := by
    show name ++ "::" ++ kind ++ "::" ++ value = _
    simp only [symbolId, String.append_assoc]
  rw [hid]
  exact ⟨⟨_, kind, named_nodeDocument hdetails, hkind⟩,
    ⟨value, member?_nodeDocument hdetails (by simp)⟩, member?_nodeDocument hdetails (by simp)⟩

lemma carries_within (hid : l.idOf name = name) (htold : l.toldPath? name = none)
    (hA : ∀ n, l.IsPartOf name n → A n) :
    Carries l.fileKind name (Within A) (fun s ↦ Within A s ∧ s.file = some name)
    fun _ _ _ ↦ True where
  opens s hs confidence details hdetails := by
    have hopened : Within A { s with file := some name } := hs
    exact ⟨hopened.addNode (hA _ (.inl (isFileNode_nodeDocument hdetails hid htold))),
      (file_addNode _ _ _ _ _ _).1⟩
  closes _ hs := hs.1
  file _ hs := hs.2
  issue _ hs := hs
  ticket _ _ _ hs := hs
  thing s hs kind value confidence details hthing hdetails := by
    have hinner : IsInner (l.idOf name) (nodeDocument kind value
        (scopedId name kind value) confidence details) := by
      rw [hid]
      exact isInner_scoped hdetails (ne_empty_of_mem_coreKinds (isThing_iff.1 hthing).1)
    exact ⟨⟨hs.1.addNode (hA _ (.inr hinner)), (file_addNode _ _ _ _ _ _).1.trans hs.2⟩, trivial⟩
  edge s key word target kind hs _ hpermits := ⟨⟨hs.1.1, forall_mem_append.2 ⟨hs.1.2,
    forall_mem_singleton.2 (linkable_of_joins ⟨rfl, rfl, rfl⟩ hpermits)⟩⟩, hs.2⟩

end Sketch

/-! ## Fragments of all builders -/

lemma exists_named_plan (l : Language) :
    ∃ plan, l.plan l.instructions l.mapping Catalog.coreEdges = .ok plan := by
  cases l <;> exact ⟨_, rfl⟩

lemma draft_of_python_plan (h : Language.plan (instructions .python)
    (mapping .python) Catalog.coreEdges .python = .ok plan) : plan.draft = scriptDraft := by
  simp only [Language.plan, bind_eq_ok, pure_eq_ok] at h
  obtain ⟨schema, hschema, version, -, described, -, schemaVersion, -, rfl⟩ := h
  obtain rfl := Except.ok.inj (ofDocuments_scriptSetup.symm.trans hschema)
  rfl

/-- What the builders make of files: nodes that are parts of the files, those of scripts only where
they can be read, and edges that serve merging. -/
lemma isPartOf_of_plan (hplan : l.plan l.instructions l.mapping Catalog.coreEdges = .ok plan)
    (issued : Nat) (hne : ∀ source ∈ sources, source.name ≠ "") :
    (∀ n ∈ (plan.draft issued sources).nodes, ∃ source ∈ sources,
      (l = .python → ∃ parsed, source.tree = .ok parsed) ∧ l.IsPartOf source.name n) ∧
    ∀ e ∈ (plan.draft issued sources).edges, Linkable e := by
  cases l with
  | python =>
    rw [draft_of_python_plan hplan]
    refine ⟨fun n hn ↦ ?_, fun e he ↦ ?_⟩
    · obtain ⟨source, hsource, hparsed, hn⟩ := isScripted_scriptDraft issued hn
      exact ⟨source, hsource, fun _ ↦ hparsed, hn⟩
    · obtain ⟨kind, source, target, A, B, hjoins, -, -, hpermits⟩ :=
        (built_scriptDraft issued hne).edges e he
      exact linkable_of_joins hjoins hpermits
  | html =>
    simp only [Language.plan, bind_eq_ok, pure_eq_ok] at hplan
    obtain ⟨rules, hrules, setup, hsetup, version, -, rfl⟩ := hplan
    obtain rfl := Except.ok.inj (ofDocument_coreEdges.symm.trans hrules)
    obtain ⟨markup, hmarkup, hsound⟩ := exists_markup
    obtain rfl := Except.ok.inj (hmarkup.symm.trans hsetup)
    refine hsound.carried ⟨by simp, by simp⟩ (fun _ _ hs ↦ hs)
      fun source hsource ↦ ⟨_, _, Sketch.carries_within (l := .html) rfl rfl fun n hn ↦ ?_⟩
    exact ⟨source, hsource, fun h ↦ (by cases h), hn⟩
  | css =>
    simp only [Language.plan, bind_eq_ok, pure_eq_ok] at hplan
    obtain ⟨rules, hrules, o, ho, version, -, rfl⟩ := hplan
    obtain rfl := Except.ok.inj (ofDocument_coreEdges.symm.trans hrules)
    obtain ⟨styles, hstyles, hsound⟩ := exists_styles
    obtain rfl := Except.ok.inj (hstyles.symm.trans ho)
    refine hsound.carried ⟨by simp, by simp⟩ (fun _ _ hs ↦ hs)
      fun source hsource ↦ ⟨_, _, Sketch.carries_within (l := .css) rfl rfl fun n hn ↦ ?_⟩
    exact ⟨source, hsource, fun h ↦ (by cases h), hn⟩

/-- A fragment as the builder of a language makes it of a directory, by the documents that come with
it. -/
def IsFragmentOf (e : Exclusions) (patterns : List String) (t : Tree) (root : Path) (l : Language)
    (f : Fragment) : Prop :=
  ∃ plan issued header, l.plan l.instructions l.mapping Catalog.coreEdges = .ok plan ∧
    f.document = .ok ((plan.draft issued (sourcesIn e patterns l.pattern t root)).document header)

section Fragments

variable {e : Exclusions} {patterns : List String} {t : Tree} {root : Path} {f : Fragment}

lemma ne_empty_of_mem_sourcesIn (h : source ∈ sourcesIn e patterns l.pattern t root) :
    source.name ≠ "" := by
  intro hempty
  have hends := suffix_name_of_mem l.pieces_pattern h
  rw [hempty, String.toList_empty, suffix_nil] at hends
  cases l <;> cases hends

/-- The fragment of a directory can be merged, and its nodes are parts of the files. -/
lemma IsFragmentOf.parts (h : IsFragmentOf e patterns t root l f) :
    f.IsMergeable ∧ ∀ n ∈ f.nodes, ∃ source ∈ sourcesIn e patterns l.pattern t root,
      (l = .python → ∃ parsed, source.tree = .ok parsed) ∧ l.IsPartOf source.name n := by
  obtain ⟨plan, issued, header, hplan, hdocument⟩ := h
  obtain ⟨hnodes, hedges⟩ :=
    isPartOf_of_plan hplan issued fun source (hsource : source ∈ _) ↦
    ne_empty_of_mem_sourcesIn hsource
  have hlisted : f.nodes = (plan.draft issued (sourcesIn e patterns l.pattern t root)).nodes :=
    Fragment.nodes_of_ok hdocument rfl
  have hlinked : f.edges = (plan.draft issued (sourcesIn e patterns l.pattern t root)).edges :=
    Fragment.edges_of_ok hdocument rfl
  refine ⟨⟨⟨_, _, hdocument, ?_, ?_, rfl⟩, fun n hn ↦ ?_,
    fun edge hedge ↦ hedges edge (hlinked ▸ hedge)⟩, fun n hn ↦ hnodes n (hlisted ▸ hn)⟩
  · rw [hlisted]
    rfl
  · rw [hlinked]
    rfl
  · obtain ⟨source, -, -, hpart⟩ := hnodes n (hlisted ▸ hn)
    obtain ⟨name, hname⟩ := hpart.exists_name
    refine ⟨isObject_of_member? hname, .str name, ?_⟩
    rw [nameOf, hname]
    rfl

lemma exists_merged {fragments : List Fragment}
    (h : ∀ f ∈ fragments, ∃ l, IsFragmentOf e patterns t root l f) :
    ∃ merged, merge fragments = .ok merged := by
  refine (Graph.Merge.merge_succeeds_iff fun n hn ↦ ?_).2 fun f hf ↦ ?_
  · obtain ⟨f, hf, hn⟩ := mem_flatMap.1 hn
    obtain ⟨l, hl⟩ := h f hf
    obtain ⟨source, -, -, hpart⟩ := hl.parts.2 n hn
    exact hpart.exists_rawId
  · obtain ⟨l, hl⟩ := h f hf
    exact hl.parts.1

lemma IsFragmentOf.spec (h : IsFragmentOf e patterns t root l f)
    (hnames : ∀ source ∈ sourcesIn e patterns l.pattern t root,
      Text.occursIn "::" source.name = false ∧ Text.occursIn "\\" source.name = false) :
    f.IsMergeable ∧ ∀ n ∈ f.nodes, ∃ path, l.IsPath path ∧ IsNodeOf l.fileKind path n := by
  refine ⟨h.parts.1, fun n hn ↦ ?_⟩
  obtain ⟨source, hsource, -, hpart⟩ := h.parts.2 n hn
  have hpath : l.IsPath source.name := ⟨suffix_name_of_mem l.pieces_pattern hsource,
    undivided_iff.2 (hnames source hsource).1, (hnames source hsource).2⟩
  exact ⟨source.name, hpath, hpart.isNodeOf hpath⟩

end Fragments

/-- What tells the same members of a list apart leaves equally many of them. -/
lemma length_dedup_map_congr {α β γ : Type} [DecidableEq β] [DecidableEq γ] {f : α → β} {g : α → γ}
    {xs : List α} (h : ∀ x ∈ xs, ∀ y ∈ xs, f x = f y ↔ g x = g y) :
    (xs.map f).dedup.length = (xs.map g).dedup.length := by
  induction xs with
  | nil => rfl
  | cons x xs ih =>
    have htail := ih fun y hy z hz ↦ h y (mem_cons_of_mem x hy) z (mem_cons_of_mem x hz)
    have hmem : f x ∈ xs.map f ↔ g x ∈ xs.map g := by
      simp only [mem_map]
      refine exists_congr fun y ↦ and_congr_right fun hy ↦ ?_
      exact h y (mem_cons_of_mem x hy) x mem_cons_self
    rw [map_cons, map_cons]
    by_cases hx : f x ∈ xs.map f
    · rw [dedup_cons_of_mem hx, dedup_cons_of_mem (hmem.1 hx), htail]
    · rw [dedup_cons_of_notMem hx, dedup_cons_of_notMem (mt hmem.2 hx), length_cons,
        length_cons, htail]

lemma length_byId {ns : List Json} {m : Graph.Merge.Nodes} (h : Graph.Merge.NodesFiled ns m)
    (hids : ∀ a ∈ ns, ∀ b ∈ ns, assignedId a = assignedId b ↔ rawId a = rawId b) :
    m.byId.values.length = (ns.map rawId).dedup.length := by
  choose! id hid using h.assigned
  have hperm : m.byId.keys.Perm (ns.map fun n ↦ Key.str (id n)).dedup := by
    rw [perm_ext_iff_of_nodup h.distinct (nodup_dedup _)]
    intro k
    rw [h.mem_keys, mem_dedup, mem_map]
    refine exists_congr fun n ↦ and_congr_right fun hn ↦ ?_
    rw [hid n hn]
    simp [eq_comm]
  have hlength : m.byId.values.length = m.byId.keys.length := by
    rw [Table.values, Table.keys, length_map, length_map]
  rw [hlength, hperm.length_eq]
  apply length_dedup_map_congr
  intro a ha b hb
  rw [← hids a ha b hb, hid a ha, hid b hb, Except.ok.injEq, str.injEq, Key.str.injEq]

/-- Over the fragments that the builders make of a directory whose files have neither pairs of
colons nor backslashes in their paths, two nodes get the same canonical id just if they have the
same id. So merging, which completes, leaves as many nodes as there are ids. A builder that is run
on the directory writes such a fragment. -/
theorem canonical_ids_agree_iff {e : Exclusions} {patterns : List String} {t : Tree} {root : Path}
    {fragments : List Fragment}
    (hfragments : ∀ f ∈ fragments, ∃ l, IsFragmentOf e patterns t root l f)
    (hnames : ∀ l : Language, ∀ source ∈ sourcesIn e patterns l.pattern t root,
      Text.occursIn "::" source.name = false ∧ Text.occursIn "\\" source.name = false) :
    (∀ l c out s, Ready c root (l.instructions, l.mapping, Catalog.coreEdges) e patterns s →
      s.tree = t → Writable t out → ∃ d, Emits l c root out s d ∧
        ∀ name header, IsFragmentOf e patterns t root l ⟨name, .ok (d.document header)⟩) ∧
    (∀ m ∈ allNodes fragments, ∀ n ∈ allNodes fragments, ∃ id id', assignedId m = .ok (.str id) ∧
      assignedId n = .ok (.str id') ∧ (id = id' ↔ rawId m = rawId n)) ∧
    ∃ merged nodes, merge fragments = .ok merged ∧ nodesOf merged = .ok nodes ∧
      nodes.length = ((allNodes fragments).map rawId).dedup.length := by
  have hnodes : ∀ n ∈ allNodes fragments, ∃ l : Language, ∃ path, l.IsPath path ∧
      IsNodeOf l.fileKind path n := by
    intro n hn
    obtain ⟨f, hf, hn⟩ := List.mem_flatMap.1 hn
    obtain ⟨l, hl⟩ := hfragments f hf
    exact ⟨l, (hl.spec (hnames l)).2 n hn⟩
  have hids : ∀ m ∈ allNodes fragments, ∀ n ∈ allNodes fragments,
      assignedId m = assignedId n ↔ rawId m = rawId n := by
    intro m hm n hn
    obtain ⟨l, path, hpath, hnode⟩ := hnodes m hm
    obtain ⟨l', path', hpath', hnode'⟩ := hnodes n hn
    exact hnode.assignedId_eq_iff hpath hpath' hnode'
  have htexts : ∀ n ∈ allNodes fragments, ∃ id, rawId n = .str id := by
    intro n hn
    obtain ⟨l, path, -, hnode⟩ := hnodes n hn
    exact hnode.exists_rawId
  obtain ⟨merged, hmerged⟩ := (Graph.Merge.merge_succeeds_iff htexts).2 fun f hf ↦ by
    obtain ⟨l, hl⟩ := hfragments f hf
    exact (hl.spec (hnames l)).1
  obtain ⟨filed, linked, hfiled, -, hlisted, -⟩ := Graph.merge_spec hmerged
  refine ⟨fun l c out s hready htree hout ↦ ?_, fun m hm n hn ↦ ?_, merged, _, hmerged, hlisted,
    length_byId hfiled hids⟩
  · subst htree
    obtain ⟨plan, hplan⟩ := exists_named_plan l
    exact ⟨_, hready.emits hout hplan, fun name header ↦ ⟨plan, s.issued, header, hplan, rfl⟩⟩
  · obtain ⟨id, hid⟩ := hfiled.assigned m hm
    obtain ⟨id', hid'⟩ := hfiled.assigned n hn
    refine ⟨id, id', hid, hid', ?_⟩
    rw [← hids m hm n hn, hid, hid', Except.ok.injEq, Json.str.injEq]

/-- Two scripts whose names differ by a colon, a page and a stylesheet. -/
def mixedSite : Tree :=
  ⟨[(["site"], .directory), (["site", ":a.py"], .file "x = 1".toUTF8),
    (["site", "a.py"], .file "class A: pass".toUTF8), (["site", "a.html"], .file "<p id=a>".toUTF8),
    (["site", "a.css"], .file "#a \x7b\x7d".toUTF8)]⟩

theorem canonical_ids_agree_iff_mixedSite :
    ∃ f g h, IsFragmentOf (.ofDocument Catalog.builderRules)
      ["*.min.html", "test_output*"] mixedSite
        ⟨"/", ["site"]⟩ .python f ∧
      IsFragmentOf (.ofDocument Catalog.builderRules) ["*.min.html", "test_output*"] mixedSite
        ⟨"/", ["site"]⟩ .html g ∧
      IsFragmentOf (.ofDocument Catalog.builderRules) ["*.min.html", "test_output*"] mixedSite
        ⟨"/", ["site"]⟩ .css h ∧
      (∀ m ∈ allNodes [f, g, h], ∀ n ∈ allNodes [f, g, h], ∃ id id', assignedId m = .ok (.str id) ∧
        assignedId n = .ok (.str id') ∧ (id = id' ↔ rawId m = rawId n)) ∧
      ∃ merged nodes, merge [f, g, h] = .ok merged ∧ nodesOf merged = .ok nodes ∧
        nodes.length = ((allNodes [f, g, h]).map rawId).dedup.length := by
  have hfragment (l : Language) : ∃ f, IsFragmentOf (.ofDocument Catalog.builderRules)
      ["*.min.html", "test_output*"] mixedSite ⟨"/", ["site"]⟩ l f := by
    obtain ⟨plan, hplan⟩ := exists_named_plan l
    exact ⟨⟨"", .ok _⟩, plan, 0, [], hplan, rfl⟩
  have hnames : ∀ l : Language, ∀ source ∈ sourcesIn (.ofDocument Catalog.builderRules)
      ["*.min.html", "test_output*"] l.pattern mixedSite ⟨"/", ["site"]⟩,
      Text.occursIn "::" source.name = false ∧ Text.occursIn "\\" source.name = false := by
    intro l source hsource
    obtain ⟨rest, hrest, rfl⟩ := List.mem_map.1 hsource
    have hbelow := (mem_scanned.1 hrest).2.1
    have hplain : ∀ rest ∈ mixedSite.spotsBelow ["site"], rest ≠ [] ∧
        Text.occursIn "::" (String.intercalate "/" rest) = false ∧
        Text.occursIn "\\" (String.intercalate "/" rest) = false := by decide +kernel
    rw [name_sourceAt mixedSite _ (hplain rest hbelow).1]
    exact (hplain rest hbelow).2
  obtain ⟨f, hf⟩ := hfragment .python
  obtain ⟨g, hg⟩ := hfragment .html
  obtain ⟨h, hh⟩ := hfragment .css
  refine ⟨f, g, h, hf, hg, hh, (canonical_ids_agree_iff (fun x hx ↦ ?_) hnames).2⟩
  simp only [List.mem_cons, List.not_mem_nil, or_false] at hx
  rcases hx with rfl | rfl | rfl
  · exact ⟨_, hf⟩
  · exact ⟨_, hg⟩
  · exact ⟨_, hh⟩

end CodeAtlas.Build
