import CodeAtlas.Proofs.CanonicalNames
import CodeAtlas.Proofs.StructureGuard

/-!
# Files that are listed

Listing the files of a graph gathers the paths that its nodes tell. The node of a script tells its
path, and merging and giving roles keep it. The nodes of pages and stylesheets tell none. So the
scripts of a project are listed, and no other file is.
-/

namespace CodeAtlas

open List Table Json CodeAtlas.Graph

variable {g n : Json} {nodes : List Json} {patterns : List String} {root : Path} {t : Tree}

lemma mem_values_iff {κ β : Type} [DecidableEq κ] {t : Table κ β} (h : t.keys.Nodup) {v : β} :
    v ∈ t.values ↔ ∃ k, t.get? k = some v := by
  constructor
  · intro hv
    obtain ⟨⟨k, w⟩, hmem, rfl⟩ := mem_map.1 hv
    exact ⟨k, get?_of_mem h hmem⟩
  · rintro ⟨k, hk⟩
    exact mem_map.2 ⟨(k, v), mem_of_get? hk, rfl⟩

namespace Graph

open Fallible

/-! ## Gathering paths -/

/-- Takes a path in unless it is there already. -/
def gather (seen : Table Key Json) (p : Json) : Except Fault (Table Key Json) := do
  let k ← p.key
  return if seen.contains k then seen else seen ++ [(k, p)]

def entries (ps : List String) : Table Key Json := ps.map fun p ↦ (.str p, .str p)

lemma values_entries (ps : List String) : (entries ps).values = ps.map .str := by
  rw [Table.values, entries, map_map]
  rfl

lemma gather_entries (ps : List String) (p : String) :
    gather (entries ps) p = .ok (entries (if p ∈ ps then ps else ps ++ [p])) := by
  have hmem : (entries ps).contains (.str p) = true ↔ p ∈ ps := by
    simp [Table.contains_iff, Table.keys, entries]
  show Except.ok _ = _
  by_cases hp : p ∈ ps
  · rw [if_pos (hmem.2 hp), if_pos hp]
  · rw [if_neg (mt hmem.1 hp), if_neg hp, entries, entries, map_append]
    rfl

lemma foldlM_gather {seen : List String} (hseen : seen.Nodup) (ps : List String) :
    ∃ all, (ps.map .str).foldlM gather (entries seen) = .ok (entries all) ∧ all.Nodup ∧
      ∀ p, p ∈ all ↔ p ∈ seen ∨ p ∈ ps := by
  induction ps generalizing seen with
  | nil => exact ⟨seen, rfl, hseen, by simp⟩
  | cons p ps ih =>
    rw [map_cons, foldlM_cons, gather_entries]
    by_cases hp : p ∈ seen
    · obtain ⟨all, hall, hnodup, hmem⟩ := ih hseen
      rw [if_pos hp]
      exact ⟨all, hall, hnodup, fun q ↦ by grind⟩
    · have hseen' : (seen ++ [p]).Nodup := by simpa [nodup_append, hseen] using fun q hq ↦ by grind
      obtain ⟨all, hall, hnodup, hmem⟩ := ih hseen'
      rw [if_neg hp]
      exact ⟨all, hall, hnodup, fun q ↦ by grind⟩

lemma insertValue_texts (p : String) (ps : List String) :
    insertValue p (ps.map .str) = .ok ((ps.orderedInsert (· ≤ ·) p).map .str) := by
  induction ps with
  | nil => rfl
  | cons q ps ih =>
    rw [map_cons, insertValue, orderedInsert_cons, ih]
    show (if decide (p ≤ q) = true then _ else _ : Except Fault (List Json)) = _
    by_cases h : p ≤ q
    · rw [if_pos (decide_eq_true h), if_pos h]
      rfl
    · rw [if_neg (by simpa using h), if_neg h]
      rfl

lemma sortValues_texts (ps : List String) :
    sortValues (ps.map .str) = .ok ((ps.insertionSort (· ≤ ·)).map .str) := by
  induction ps with
  | nil => rfl
  | cons p ps ih =>
    rw [sortValues] at ih ⊢
    rw [map_cons, foldrM_cons, ih, insertionSort_cons, ← insertValue_texts]
    rfl

/-- A node tells a path as a text, or none. -/
def TellsPath (n : Json) : Prop :=
  n.IsObject ∧ ∀ v, n.member? "file_path" = some v → ∃ p, v = .str p

/-- The path that a node tells, if it tells one that is not empty. -/
def pathOf? (n : Json) : Option String :=
  match n.member? "file_path" with
  | some (.str p) => if p = "" then none else some p
  | _ => none

lemma pathOf?_eq_some {p : String} :
    pathOf? n = some p ↔ p ≠ "" ∧ n.member? "file_path" = some (.str p) := by
  rw [pathOf?]
  split <;> grind

lemma filter_paths (h : ∀ n ∈ nodes, TellsPath n) :
    (nodes.map fun n ↦ (n.member? "file_path").getD .null).filter truthy =
      (nodes.filterMap pathOf?).map .str := by
  induction nodes with
  | nil => rfl
  | cons n nodes ih =>
    obtain ⟨hn, hnodes⟩ := forall_mem_cons.1 h
    rw [map_cons, filter_cons, ih hnodes, filterMap_cons, pathOf?]
    cases hpath : n.member? "file_path" with
    | none => rfl
    | some v =>
      obtain ⟨p, rfl⟩ := hn.2 v hpath
      by_cases hp : p = "" <;> simp [hp, truthy]

/-- Listing files gives the paths that nodes tell, in order and each once. -/
lemma exists_filesOf (hnodes : nodesOf g = .ok nodes) (h : ∀ n ∈ nodes, TellsPath n) :
    ∃ paths : List String, filesOf g = .ok (paths.map .str) ∧ paths.Pairwise (· < ·) ∧
      ∀ p, p ∈ paths ↔ p ≠ "" ∧ ∃ n ∈ nodes, n.member? "file_path" = some (.str p) := by
  have hread : nodes.mapM (fun n ↦ n.get "file_path") =
      .ok (nodes.map fun n ↦ (n.member? "file_path").getD .null) :=
    mapM_of_forall fun n hn ↦ get_eq_ok.2 ⟨(h n hn).1, rfl⟩
  obtain ⟨all, hall, hnodup, hmem⟩ := foldlM_gather nodup_nil (nodes.filterMap pathOf?)
  refine ⟨all.insertionSort (· ≤ ·), ?_, ?_, fun p ↦ ?_⟩
  · refine bind_eq_ok.2 ⟨nodes, hnodes, bind_eq_ok.2 ⟨_, hread, bind_eq_ok.2 ⟨entries all, ?_, ?_⟩⟩⟩
    · rw [filter_paths h]
      exact hall
    · rw [values_entries, sortValues_texts]
  · have hdistinct : (all.insertionSort (· ≤ ·)).Nodup :=
      (all.perm_insertionSort _).nodup_iff.2 hnodup
    exact ((pairwise_insertionSort (· ≤ ·) all).and hdistinct).imp fun h ↦ lt_of_le_of_ne h.1 h.2
  · rw [(all.perm_insertionSort _).mem_iff, hmem]
    simp only [not_mem_nil, false_or, mem_filterMap, pathOf?_eq_some]
    grind

lemma filesOf_congr {g' : Json} {nodes' : List Json} (hnodes : nodesOf g = .ok nodes)
    (hnodes' : nodesOf g' = .ok nodes') (h : ∀ n ∈ nodes, TellsPath n)
    (h' : ∀ n ∈ nodes', TellsPath n) (hsame : ∀ v, (∃ n ∈ nodes', n.member? "file_path" = some v) ↔
      ∃ n ∈ nodes, n.member? "file_path" = some v) : filesOf g' = filesOf g := by
  obtain ⟨paths, hpaths, hsorted, hmem⟩ := exists_filesOf hnodes h
  obtain ⟨paths', hpaths', hsorted', hmem'⟩ := exists_filesOf hnodes' h'
  have hperm : paths'.Perm paths := by
    rw [perm_ext_iff_of_nodup (hsorted'.imp ne_of_lt) (hsorted.imp ne_of_lt)]
    intro p
    rw [hmem, hmem', hsame]
  rw [hpaths, hpaths', hperm.eq_of_pairwise (fun _ _ _ _ h h' ↦ absurd h (not_lt_of_gt h'))
    hsorted' hsorted]

/-! ## Giving roles -/

namespace Enrichment

variable {raw before report : Json} {nodes : Table Key Json}

/-- Giving roles to all nodes of a graph leaves the list of files as it was. -/
lemma filesOf_enriched {frameworks : List Reading} (hraw : Listed raw nodes)
    (htell : ∀ n ∈ nodes.values, TellsPath n) (hfull : isFull before report = true)
    (h : enriched raw before report frameworks = .ok g) : filesOf g = filesOf raw := by
  obtain ⟨-, done, hdone, haligned⟩ := enriched_full hraw hfull h
  have hkept {k : Key} {m : Json} (hm : done.get? k = some m) :
      ∃ n, nodes.get? k = some n ∧ m.member? "file_path" = n.member? "file_path" := by
    cases hn : nodes.get? k with
    | none => rw [haligned.absent k hn] at hm; cases hm
    | some n =>
      obtain ⟨m', hm', hroles⟩ := haligned.present k n hn
      cases hm.symm.trans hm'
      exact ⟨n, rfl, member?_of_structureOf_eq (onlyAddsRoles_giveRoles hroles).1 (by decide)⟩
  refine filesOf_congr hraw.tabled.nodesOf_eq hdone.tabled.nodesOf_eq htell (fun m hm ↦ ?_)
    fun v ↦ ⟨?_, ?_⟩
  · obtain ⟨k, hk⟩ := (mem_values_iff hdone.distinct).1 hm
    obtain ⟨n, hn, hpath⟩ := hkept hk
    obtain ⟨id, -, hid⟩ := hdone.labelled k m (mem_of_get? hk)
    refine ⟨isObject_of_member? hid, fun v hv ↦ ?_⟩
    exact (htell n ((mem_values_iff hraw.distinct).2 ⟨k, hn⟩)).2 v (hpath ▸ hv)
  · rintro ⟨m, hm, hv⟩
    obtain ⟨k, hk⟩ := (mem_values_iff hdone.distinct).1 hm
    obtain ⟨n, hn, hpath⟩ := hkept hk
    exact ⟨n, (mem_values_iff hraw.distinct).2 ⟨k, hn⟩, hpath ▸ hv⟩
  · rintro ⟨n, hn, hv⟩
    obtain ⟨k, hk⟩ := (mem_values_iff hraw.distinct).1 hn
    obtain ⟨m, hm, hroles⟩ := haligned.present k n hk
    refine ⟨m, (mem_values_iff hdone.distinct).2 ⟨k, hm⟩, ?_⟩
    rw [member?_of_structureOf_eq (onlyAddsRoles_giveRoles hroles).1 (by decide), hv]

/-- Without frameworks, roles can be given to any graph whose edges have ends that serve as keys. -/
lemma exists_enriched (hraw : Listed raw nodes) (hfull : isFull before report = true)
    {es : List Json} (hedges : raw.member? "edges" = some (.arr es))
    (hes : ∀ e ∈ es, e.member? "source" = some (Merge.endsOf e).source ∧
      e.member? "target" = some (Merge.endsOf e).target ∧
      ∃ key, Merge.linkKey? (Merge.endsOf e) = some key) :
    ∃ g, enriched raw before report [] = .ok g := by
  have hadd (t : Topology) (e : Json) (he : e ∈ es) : ∃ t', t.addEdge e = .ok t' := by
    obtain ⟨hsource, htarget, key, hkey⟩ := hes e he
    obtain ⟨-, hsourceKey, htargetKey⟩ := Merge.linkKey?_eq_some.1 hkey
    have hobject := isObject_of_member? hsource
    have hget (name : String) : e.get name = .ok ((e.member? name).getD .null) :=
      get_eq_ok.2 ⟨hobject, rfl⟩
    have hgetD (name : String) (v : Json) : e.getD name v = .ok ((e.member? name).getD v) :=
      getD_eq_ok.2 ⟨hobject, rfl⟩
    simp only [Topology.addEdge, hget, hgetD, hsource, htarget, Option.getD_some,
      key_eq_ok.2 hsourceKey, key_eq_ok.2 htargetKey, bind, Except.bind]
    split <;> exact ⟨_, rfl⟩
  obtain ⟨t, ht⟩ := foldlM_succeeds hadd { nodes := [] ++ nodes }
  have htopology : topologyOf { fresh := nodes } raw = .ok t :=
    bind_eq_ok.2 ⟨_, need_eq_ok.2 hedges, bind_eq_ok.2 ⟨es, rfl, ht⟩⟩
  obtain ⟨g, hg⟩ := exists_document hedges report { fresh := nodes } nodes 0
  exact ⟨g, (enriched_iff_of_full hraw.tabled hfull).2 ⟨t, [], nodes, 0, htopology, rfl, rfl, hg⟩⟩

end Enrichment

end Graph

namespace Build

open Fallible Stepwise
open CodeAtlas.Graph (Fragment allNodes merge filesOf Listed TellsPath)
open CodeAtlas.Graph.Merge (assignedId holder? linkKey?)
open CodeAtlas.Graph.Enrichment (enriched isFull)

/-! ## What is left of a script -/

namespace Survey

/-- The nodes and logs of a draft are still there. -/
def Beyond (d : Draft) (s : Survey) : Prop := d.nodes ⊆ s.draft.nodes ∧ d.logs ⊆ s.draft.logs

variable {d : Draft} {s : Survey}

lemma keepsRecords_beyond : KeepsRecords scriptSetup (Beyond d) where
  ticket := keeps_emitTicket_of (fun _ hs ↦ hs) fun _ _ _ hs ↦ hs
  edge _ _ _ _ _ :=
    keeps_emitEdge_of (keeps_emitTicket_of (fun _ hs ↦ hs) fun _ _ _ hs ↦ hs) fun _ _ hs _ ↦ hs
  log _ _ hs := ⟨hs.1, subset_append_of_subset_left _ hs.2⟩

lemma keeps_beyond_step (step : Definitions.Step) : Keeps (Beyond d) (step.run scriptSetup) :=
  step.keeps_run (fun _ _ _ _ hs ↦ ⟨subset_append_of_subset_left _ hs.1, hs.2⟩) keepsRecords_beyond

end Survey

/-- A script that is scanned becomes a node, or its failure is logged. -/
lemma mem_nodes_or_logged (issued : Nat) {sources : List Source} {source : Source}
    (hsource : source ∈ sources) : (∃ text tree,
      Definitions.fileNode source text "File" tree ∈ (scriptDraft issued sources).nodes) ∨
      ∃ entry ∈ (scriptDraft issued sources).logs, entry.member? "file" =
        some (.str source.path) := by
  obtain ⟨before, rest, rfl⟩ := append_of_mem hsource
  let s := firstPass scriptSetup issued before
  have hend {d : Draft} (h : Survey.Beyond d (s.addDefinitions scriptSetup source)) :
      Survey.Beyond d (surveySources scriptSetup issued (before ++ source :: rest)) := by
    refine References.surveySources_of_records Survey.keepsRecords_beyond ?_
    rw [firstPass, foldl_append, foldl_cons]
    refine List.foldlRecOn (motive := Survey.Beyond d) _ _ h fun _ hs source _ ↦ ?_
    exact Definitions.addDefinitions_of_steps (fun _ _ (_ : True) ↦ trivial)
      Survey.keepsRecords_beyond.log trivial hs fun _ _ step _ ↦ Survey.keeps_beyond_step step
  cases htree : source.tree with
  | ok parsed =>
    obtain ⟨text, tree⟩ := parsed
    have hbeyond : Survey.Beyond
        (s.register (fileId source.name) (Definitions.fileNode source text "File" tree)).draft
        (s.addDefinitions scriptSetup source) := by
      rw [Survey.addDefinitions, htree]
      refine Survey.walk_of_after Survey.keepsRecords_beyond.log ?_ _ _
      exact Definitions.keeps_stepsAll (fun _ _ _ ↦ trivial)
        (fun step (_ : step.Arises scriptSetup source.name fun _ ↦ True) ↦
          Survey.keeps_beyond_step step)
        trivial 3 tree.children _ ⟨List.Subset.refl _, List.Subset.refl _⟩
    exact .inl ⟨text, tree, (hend hbeyond).1 (mem_append_right _ mem_cons_self)⟩
  | error f =>
    let entry : Json := .obj [("error", .str f.message), ("file", .str source.path)]
    have hlogged : entry ∈ (s.addDefinitions scriptSetup source).draft.logs := by
      rw [Survey.addDefinitions, htree]
      exact mem_append_right _ mem_cons_self
    exact .inr ⟨entry, (hend ⟨List.Subset.refl _, List.Subset.refl _⟩).2 hlogged, rfl⟩

/-! ## Paths that parts of files tell -/

def scriptId (path : String) : String := "File" ++ ":" ++ path

/-- A node tells no path, and no script with a plain path has its canonical id. -/
def IsAside (n : Json) : Prop :=
  n.member? "file_path" = none ∧ ∀ p, Undivided p → Language.python.ending <:+ p.toList →
    assignedId n ≠ .ok (.str (scriptId p))

namespace Language

variable {l : Language} {path : String}

lemma isAside_of_isInner (h : IsInner (l.idOf path) n) (hends : l.ending <:+ path.toList) :
    IsAside n := by
  refine ⟨h.path, fun p hp _ heq ↦ ?_⟩
  have hfile : l.idOf path ≠ "File" := by
    cases l with
    | python => exact fileId_ne (dot_mem hends) (by decide) (by decide)
    | _ =>
      rintro rfl
      exact absurd (dot_mem hends) (by decide)
  obtain ⟨rest, hraw, hid⟩ := h.assignedId_eq
  rw [hid, hraw, Except.ok.injEq, str.injEq] at heq
  have hlist := congrArg String.toList heq.symm
  rw [scriptId, toList_labelled, toList_symbolId] at hlist
  exact labelled_ne_scoped (by decide) hp (fun h ↦ hfile (String.toList_inj.1 h)) hlist

/-- The node of a page or a stylesheet is not known by a path of a script. -/
lemma isAside_of_isFileNode (h : l.IsFileNode path n) (hends : l.ending <:+ path.toList)
    (hl : l ≠ .python) : IsAside n := by
  have htold : l.toldPath? path = none := by
    cases l with
    | python => exact absurd rfl hl
    | _ => rfl
  have hid : l.idOf path = path := by
    cases l with
    | python => exact absurd rfl hl
    | _ => rfl
  refine ⟨h.path.trans htold, fun p _ hp heq ↦ ?_⟩
  rw [h.assignedId_of_told_none htold, hid, Except.ok.injEq, str.injEq] at heq
  have hlist := congrArg String.toList heq
  rw [scriptId, toList_labelled] at hlist
  split at hlist
  · rw [hlist] at hends
    exact hl (ending_unique hends (hp.trans (suffix_append_of_suffix (suffix_cons _ _))))
  · rw [toList_labelled] at hlist
    have hkind := (eq_of_labelled_eq l.colon_notMem_fileKind (by decide) hlist).1
    cases l with
    | python => exact hl rfl
    | _ => exact absurd hkind (by decide)

/-- The node of a script tells its path, and nothing else of what builders make tells one. -/
lemma IsPartOf.tells_or_isAside (h : l.IsPartOf path n) (hends : l.ending <:+ path.toList) :
    (l = .python ∧ n.member? "file_path" = some (.str path) ∧
      assignedId n = .ok (.str (scriptId path))) ∨ IsAside n := by
  rcases h with h | h
  · by_cases hl : l = .python
    · subst hl
      refine .inl ⟨rfl, h.path, assignedId_of_path h.named ?_ h.path⟩
      rintro rfl
      exact absurd (dot_mem hends) (by decide)
    · exact .inr (isAside_of_isFileNode h hends hl)
  · exact .inr (isAside_of_isInner h hends)

/-- What the log of a builder calls a file. -/
def loggedName : Language → Source → String
  | .css, source => source.name
  | _, source => source.path

end Language

/-! ## Files of a project -/

/-- A fragment as the builder of a language makes it of a directory, with its draft. -/
def IsDraftOf (e : Exclusions) (patterns : List String) (t : Tree) (root : Path) (l : Language)
    (f : Fragment) (d : Draft) : Prop :=
  ∃ plan issued header, l.plan l.instructions l.mapping Catalog.coreEdges = .ok plan ∧
    d = plan.draft issued (sourcesIn e patterns l.pattern t root) ∧
    f.document = .ok (d.document header)

/-- No entry of the log is about a file. -/
def Unlogged (l : Language) (d : Draft) (source : Source) : Prop :=
  ∀ entry ∈ d.logs, entry.member? "file" ≠ some (.str (l.loggedName source))

/-- The last node with the canonical id of a script tells no path. -/
def Overtaken (fragments : List Fragment) (path : String) : Prop :=
  ∃ n, holder? (allNodes fragments) (scriptId path) = some n ∧ n.member? "file_path" = none

section Project

variable {e : Exclusions} {fragments : List Fragment}
  (hfragments : ∀ f ∈ fragments, ∃ l, IsFragmentOf e patterns t root l f)
include hfragments

lemma tells_or_isAside_of_mem (hn : n ∈ allNodes fragments) :
    (∃ source ∈ sourcesIn e patterns (Language.pattern .python) t root,
      n.member? "file_path" = some (.str source.name) ∧
      assignedId n = .ok (.str (scriptId source.name))) ∨ IsAside n := by
  obtain ⟨f, hf, hn⟩ := mem_flatMap.1 hn
  obtain ⟨l, hl⟩ := hfragments f hf
  obtain ⟨source, hsource, -, hpart⟩ := hl.parts.2 n hn
  refine (hpart.tells_or_isAside (suffix_name_of_mem l.pieces_pattern hsource)).imp_left ?_
  rintro ⟨rfl, htells⟩
  exact ⟨source, hsource, htells⟩

lemma scriptId_of_tells {p id : String} (hn : n ∈ allNodes fragments)
    (hpath : n.member? "file_path" = some (.str p)) (hid : assignedId n = .ok id) :
    id = scriptId p ∧
      ∃ source ∈ sourcesIn e patterns (Language.pattern .python) t root, source.name = p := by
  rcases tells_or_isAside_of_mem hfragments hn with ⟨source, hsource, htold, hid'⟩ | haside
  · obtain rfl : source.name = p := by simpa [htold] using hpath
    exact ⟨by simpa [hid] using hid', source, hsource, rfl⟩
  · rw [haside.1] at hpath
    cases hpath

/-- The files of a project that are listed, in the merged graph and when roles have been given. -/
lemma exists_listed : ∃ (merged : Json) (paths : List String), merge fragments = .ok merged ∧
    filesOf merged = .ok (paths.map .str) ∧ paths.Pairwise (· < ·) ∧
    (∀ before report, isFull before report = true →
      (∃ g, enriched merged before report [] = .ok g) ∧
      ∀ frameworks g, enriched merged before report frameworks = .ok g →
        filesOf g = .ok (paths.map .str)) ∧
    ∀ p, p ∈ paths ↔ ∃ n, holder? (allNodes fragments) (scriptId p) = some n ∧
      n.member? "file_path" = some (.str p) := by
  obtain ⟨merged, hmerged⟩ := exists_merged hfragments
  obtain ⟨filed, linked, hfiled, hlinked, hnodes, hedges⟩ := merge_spec hmerged
  obtain ⟨hnodesMember, hedgesMember⟩ := members_of_merge hmerged hnodes hedges
  have hlisted : Listed merged filed.byId :=
    ⟨bind_eq_ok.2 ⟨_, need_eq_ok.2 hnodesMember, rfl⟩, hfiled.distinct, hfiled.labelled⟩
  have hkept {v : Json} (hv : v ∈ filed.byId.values) :
    ∃ id n, holder? (allNodes fragments) id = some n ∧
      v.member? "file_path" = n.member? "file_path" := by
    obtain ⟨k, hk⟩ := (mem_values_iff hfiled.distinct).1 hv
    obtain ⟨id, rfl, -⟩ := hfiled.labelled k v (mem_of_get? hk)
    obtain ⟨n, hn, hmembers⟩ := hfiled.kept id v hk
    exact ⟨id, n, hn, hmembers "file_path" (by decide)⟩
  have htell : ∀ v ∈ filed.byId.values, TellsPath v := by
    intro v hv
    obtain ⟨k, hk⟩ := (mem_values_iff hfiled.distinct).1 hv
    obtain ⟨_, -, hid⟩ := hfiled.labelled k v (mem_of_get? hk)
    refine ⟨isObject_of_member? hid, fun w hw ↦ ?_⟩
    obtain ⟨id, n, hn, hsame⟩ := hkept hv
    rcases tells_or_isAside_of_mem hfragments (Merge.of_holder? hn).1 with ⟨source, -,
      htold, -⟩ | haside
    · exact ⟨source.name, by simpa [hsame, htold] using hw.symm⟩
    · rw [hsame, haside.1] at hw
      cases hw
  obtain ⟨paths, hpaths, hsorted, hmem⟩ := exists_filesOf hnodes htell
  refine ⟨merged, paths, hmerged, hpaths, hsorted, fun before report hfull ↦
    ⟨?_, fun frameworks g hg ↦ ?_⟩, fun p ↦ ?_⟩
  · refine Enrichment.exists_enriched hlisted hfull hedgesMember fun edge hedge ↦ ?_
    obtain ⟨hsource, htarget⟩ := hlinked.tells edge hedge
    have hkey : linkKey? (Merge.endsOf edge) ∈ linked.seen.reverse.map some :=
      hlinked.keyed ▸ mem_map.2 ⟨edge, hedge, rfl⟩
    obtain ⟨key, -, hkey⟩ := mem_map.1 hkey
    exact ⟨hsource, htarget, key, hkey.symm⟩
  · rw [Enrichment.filesOf_enriched hlisted htell hfull hg, hpaths]
  · rw [hmem]
    constructor
    · rintro ⟨-, v, hv, hpath⟩
      obtain ⟨id, n, hn, hsame⟩ := hkept hv
      rw [hsame] at hpath
      obtain ⟨hnode, hid⟩ := Merge.of_holder? hn
      obtain ⟨rfl, -⟩ := scriptId_of_tells hfragments hnode hpath hid
      exact ⟨n, hn, hpath⟩
    · rintro ⟨n, hn, hpath⟩
      obtain ⟨hnode, hid⟩ := Merge.of_holder? hn
      obtain ⟨-, source, hsource, rfl⟩ := scriptId_of_tells hfragments hnode hpath hid
      refine ⟨ne_empty_of_mem_sourcesIn hsource, ?_⟩
      obtain ⟨v, hv⟩ := exists_of_mem_keys ((hfiled.mem_keys _).2 ⟨n, hnode, _, hid, rfl⟩)
      obtain ⟨m, hm, hmembers⟩ := hfiled.kept _ v hv
      obtain rfl := Option.some.inj (hn.symm.trans hm)
      exact ⟨v, (mem_values_iff hfiled.distinct).2 ⟨_, hv⟩,
        (hmembers "file_path" (by decide)).trans hpath⟩

end Project

lemma IsDraftOf.isFragmentOf {e : Exclusions}
    {l : Language} {f : Fragment} {d : Draft} (h : IsDraftOf e patterns t root l f d) :
    IsFragmentOf e patterns t root l f := by
  obtain ⟨plan, issued, header, hplan, rfl, hdocument⟩ := h
  exact ⟨plan, issued, header, hplan, hdocument⟩

lemma IsDraftOf.exists_tells {e : Exclusions}
    {f : Fragment} {d : Draft} (h : IsDraftOf e patterns t root .python f d) {source : Source}
    (hsource : source ∈ sourcesIn e patterns (Language.pattern .python) t root)
    (hlog : Unlogged .python d source) :
    ∃ n ∈ f.nodes, assignedId n = .ok (.str (scriptId source.name)) := by
  obtain ⟨plan, issued, header, hplan, rfl, hdocument⟩ := h
  rw [draft_of_python_plan hplan] at hlog hdocument
  rcases mem_nodes_or_logged issued hsource with ⟨text, tree, hnode⟩ | ⟨entry, hentry, hfile⟩
  · refine ⟨_, (Fragment.nodes_of_ok hdocument rfl).symm ▸ hnode, ?_⟩
    exact assignedId_of_path (Definitions.named_fileNode source text "File" tree)
      (ne_empty_of_mem_sourcesIn hsource) rfl
  · exact absurd hfile (hlog entry hentry)

/-- Of the files that the builders scan in a directory and log no failure of, the scripts are listed
by their paths, and pages and stylesheets are not. This is so in the merged graph, and when roles
have been given to all its nodes. Only a script with two colons in its path can be missing: that is
so if the last node with the canonical id of the script tells no path. A builder that is run on the
directory writes such a fragment. -/
theorem scripts_alone_are_listed {e : Exclusions} {patterns : List String} {t : Tree} {root : Path}
    {fragments : List Fragment}
    (hfragments : ∀ f ∈ fragments, ∃ l, IsFragmentOf e patterns t root l f) :
    (∀ l c out s, Ready c root (l.instructions, l.mapping, Catalog.coreEdges) e patterns s →
      s.tree = t → Writable t out → ∃ d, Emits l c root out s d ∧
        ∀ name header, IsDraftOf e patterns t root l ⟨name, .ok (d.document header)⟩ d) ∧
    ∃ (merged : Json) (paths : List String), merge fragments = .ok merged ∧
      filesOf merged = .ok (paths.map .str) ∧ paths.Pairwise (· < ·) ∧
      (∀ before report, isFull before report = true →
        (∃ g, enriched merged before report [] = .ok g) ∧
        ∀ frameworks g, enriched merged before report frameworks = .ok g →
          filesOf g = .ok (paths.map .str)) ∧
      (∀ path ∈ paths, ∃ source ∈ sourcesIn e patterns (Language.pattern .python) t root,
        source.name = path) ∧
      ∀ f ∈ fragments, ∀ l d, IsDraftOf e patterns t root l f d →
        ∀ source ∈ sourcesIn e patterns l.pattern t root, Unlogged l d source →
          (source.name ∈ paths ↔ l = .python ∧ ¬Overtaken fragments source.name) ∧
          (l = .python → Overtaken fragments source.name →
            Text.occursIn "::" source.name = true) := by
  obtain ⟨merged, paths, hmerged, hpaths, hsorted, hroles, hmem⟩ := exists_listed hfragments
  have hscript : ∀ path ∈ paths, ∃ source ∈ sourcesIn e patterns (Language.pattern .python) t root,
      source.name = path := by
    intro path hpath
    obtain ⟨n, hn, htold⟩ := (hmem path).1 hpath
    obtain ⟨hnode, hid⟩ := Graph.Merge.of_holder? hn
    exact (scriptId_of_tells hfragments hnode htold hid).2
  refine ⟨fun l c out s hready htree hout ↦ ?_, merged, paths, hmerged, hpaths, hsorted,
    hroles, hscript, fun f hf l d hd source hsource hlog ↦ ⟨⟨fun hlisted ↦ ?_, ?_⟩, ?_⟩⟩
  · subst htree
    obtain ⟨plan, hplan⟩ := exists_named_plan l
    exact ⟨_, hready.emits hout hplan, fun name header ↦ ⟨plan, s.issued, header, hplan, rfl, rfl⟩⟩
  · obtain ⟨script, hscript, hname⟩ := hscript _ hlisted
    refine ⟨Language.ending_unique (suffix_name_of_mem l.pieces_pattern hsource)
      (hname ▸ suffix_name_of_mem (Language.pieces_pattern .python) hscript), ?_⟩
    rintro ⟨n, hn, hnone⟩
    obtain ⟨m, hm, htold⟩ := (hmem _).1 hlisted
    obtain rfl := Option.some.inj (hn.symm.trans hm)
    rw [hnone] at htold
    cases htold
  · rintro ⟨rfl, hlast⟩
    obtain ⟨n, hn, hid⟩ := hd.exists_tells hsource hlog
    obtain ⟨m, hm⟩ := Graph.Merge.exists_holder? (List.mem_flatMap.2 ⟨f, hf, hn⟩) hid
    obtain ⟨hnode, hid'⟩ := Graph.Merge.of_holder? hm
    rcases tells_or_isAside_of_mem hfragments hnode with ⟨other, -, htold, hother⟩ | haside
    · have hsame : scriptId source.name = scriptId other.name := by simpa [hid'] using hother
      rw [← (String.append_right_inj _).1 hsame] at htold
      exact (hmem _).2 ⟨m, hm, htold⟩
    · exact absurd ⟨m, hm, haside.1⟩ hlast
  · rintro rfl ⟨n, hn, hnone⟩
    obtain ⟨hnode, hid⟩ := Graph.Merge.of_holder? hn
    rcases tells_or_isAside_of_mem hfragments hnode with ⟨other, -, htold, -⟩ | haside
    · rw [hnone] at htold
      cases htold
    · by_contra hplain
      rw [Bool.not_eq_true, ← undivided_iff] at hplain
      exact haside.2 _ hplain (suffix_name_of_mem (Language.pieces_pattern .python) hsource) hid

/-- A script, a page and a stylesheet. -/
def shopSite : Tree :=
  ⟨[(["proj"], .directory), (["proj", "a.py"], .file "x = 1\n".toUTF8),
    (["proj", "page.html"], .file "<p>shop</p>\n".toUTF8),
    (["proj", "site.css"], .file "p \x7b color: red; \x7d\n".toUTF8)]⟩

/-- The file of the site in a language. -/
def siteFile : Language → String
  | .python => "a.py"
  | .html => "page.html"
  | .css => "site.css"

/-- What the builder of a language scans in the site. -/
def siteSources (l : Language) : List Source :=
  sourcesIn (.ofDocument Catalog.builderRules) [] l.pattern shopSite ⟨"/", ["proj"]⟩

/-- What the builder drafts. -/
def siteDraft (l : Language) : Draft :=
  ((l.plan l.instructions l.mapping Catalog.coreEdges).toOption.map fun plan ↦
    plan.draft 0 (siteSources l)).getD {}

def siteFragment (l : Language) : Fragment := ⟨l.fileKind, .ok ((siteDraft l).document [])⟩

def siteFragments : List Fragment := [Language.python, .html, .css].map siteFragment

lemma siteFragment_mem (l : Language) : siteFragment l ∈ siteFragments :=
  mem_map.2 ⟨l, by cases l <;> decide, rfl⟩

lemma names_siteSources (l : Language) : (siteSources l).map Source.name = [siteFile l] := by
  cases l <;> decide +kernel

lemma logs_siteDraft (l : Language) : (siteDraft l).logs = [] := by cases l <;> decide +kernel

lemma isDraftOf_siteFragment (l : Language) :
    IsDraftOf (.ofDocument Catalog.builderRules) [] shopSite
    ⟨"/", ["proj"]⟩ l (siteFragment l) (siteDraft l) := by
  obtain ⟨plan, hplan⟩ := exists_named_plan l
  refine ⟨plan, 0, [], hplan, ?_, rfl⟩
  rw [siteDraft, hplan]
  rfl

theorem scripts_alone_are_listed_shopSite :
    (∀ f ∈ siteFragments, ∃ l, IsFragmentOf (.ofDocument Catalog.builderRules) [] shopSite
      ⟨"/", ["proj"]⟩ l f) ∧
    ∃ (merged : Json) (paths : List String), merge siteFragments = .ok merged ∧
      filesOf merged = .ok (paths.map .str) ∧
      ∀ l, ∀ source ∈ siteSources l, source.name ∈ paths ↔ l = .python := by
  have hfragments : ∀ f ∈ siteFragments, ∃ l, IsFragmentOf (.ofDocument Catalog.builderRules) []
      shopSite ⟨"/", ["proj"]⟩ l f := by
    intro f hf
    obtain ⟨l, -, rfl⟩ := List.mem_map.1 hf
    exact ⟨l, (isDraftOf_siteFragment l).isFragmentOf⟩
  obtain ⟨-, merged, paths, hmerged, hpaths, -, -, -, hlisted⟩ :=
    scripts_alone_are_listed hfragments
  refine ⟨hfragments, merged, paths, hmerged, hpaths, fun l source hsource ↦ ?_⟩
  obtain ⟨hiff, hdivided⟩ :=
    hlisted _ (siteFragment_mem l) l _ (isDraftOf_siteFragment l) source hsource
    (by simp [Unlogged, logs_siteDraft])
  rw [hiff, and_iff_left_iff_imp]
  rintro rfl hlast
  have hname : source.name ∈ [siteFile .python] :=
    names_siteSources .python ▸ List.mem_map_of_mem hsource
  have hcolons := hdivided rfl hlast
  rw [List.mem_singleton.1 hname] at hcolons
  exact absurd hcolons (by decide)

/-- The page and the stylesheet of a project are scanned without a failure, and neither is listed.
-/
theorem page_is_not_listed :
    (∀ l, IsDraftOf (.ofDocument Catalog.builderRules) [] shopSite ⟨"/", ["proj"]⟩
      l (siteFragment l)
      (siteDraft l) ∧ (siteDraft l).logs = [] ∧ (siteSources l).map Source.name = [siteFile l]) ∧
    (merge siteFragments >>= filesOf) = .ok [.str "a.py"] ∧
    (merge siteFragments >>= fun merged ↦ enriched merged .null .null [] >>= filesOf) =
      .ok [.str "a.py"] := by
  refine ⟨fun l ↦ ⟨isDraftOf_siteFragment l, logs_siteDraft l, names_siteSources l⟩, ?_, ?_⟩
  · exact toOption_eq_some.1 (by decide +kernel)
  · exact toOption_eq_some.1 (by decide +kernel)

end Build

end CodeAtlas
