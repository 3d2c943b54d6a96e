import CodeAtlas.Proofs.StyleNodes

/-!
# States of what a stylesheet selects

A class, an id or an element of a stylesheet is one node, however often it is selected. The node
tells the state that the first selection is about, if it is about one. The states of later
selections are lost.
-/

namespace CodeAtlas.Build.StyleGraph

open List Fallible Stepwise Sketch Stylesheet

variable {styles : Outline} {s : Sketch} {source : Source} {text : String} {e : String × Finder}
  {cs : List Char}

/-- The kinds of what is selected, and what finds it. -/
def selectors : List (String × Finder) :=
  [("StyleClass", classSelector), ("StyleID", idSelector),
   ("StyleElement", elementSelector)]

def selected (kind : String) (m : Match) : Thing := ⟨.str kind, String.ofList m.found.name, m⟩

lemma thingsFor_selector {pattern : String} {finder : Finder}
    (h : Table.get? Stylesheet.finders pattern = some finder) (kind : String) (cs : List Char) :
    thingsFor (Catalog.selector pattern kind) cs = (findAll finder cs).map (selected kind) := by
  have hmatches : matchesFor (Catalog.selector pattern kind) cs = findAll finder cs := by
    show (Table.get? Stylesheet.finders pattern).elim [] (findAll · cs) = _
    rw [h]
    rfl
  rw [thingsFor, hmatches, map_eq_flatMap]
  rfl

lemma things_eq (h : styles.mapping = Catalog.cssMapping) (text : String) : things styles text =
    selectors.flatMap fun e ↦ (findAll e.2 (stripComments text.toList)).map (selected e.1) := by
  have himport (m : Match) :
    thing? (.obj [("regex", "@import\\s+['\"](.*?)['\"]"), ("emit_edge", "imports"),
      ("target_group", .int 1), ("target_node_type", "Stylesheet")]) m = none := rfl
  rw [things, h]
  show thingsFor _ _ ++ (thingsFor _ _ ++ (thingsFor _ _ ++ (thingsFor _ _ ++ []))) = _
  rw [thingsFor_selector rfl, thingsFor_selector rfl, thingsFor_selector rfl]
  simp only [thingsFor, himport, Option.toList_none, flatMap_eq_nil_iff.2 fun _ _ ↦ rfl, selectors,
    flatMap_cons, flatMap_nil, append_nil]

lemma scopedId_inj {file kind kind' name name' : String} (hkind : ':' ∉ kind.toList)
    (hkind' : ':' ∉ kind'.toList) (h : scopedId file kind name = scopedId file kind' name') :
    kind = kind' ∧ name = name' := by
  have hlists := congrArg String.toList h
  simp only [scopedId, Json.display, toList_scoped] at hlists
  obtain ⟨hkinds, hnames⟩ := eq_of_labelled_eq hkind hkind'
    (cons.inj (cons.inj (append_cancel_left hlists)).2).2
  exact ⟨String.toList_inj.1 hkinds, String.toList_inj.1 (cons.inj hnames).2⟩

/-- Read from its end, an id tells which file it is from. -/
lemma file_eq_of_scopedId {file file' kind kind' name name' : String} (hkind : ':' ∉ kind.toList)
    (hkind' : ':' ∉ kind'.toList) (hname : ':' ∉ name.toList) (hname' : ':' ∉ name'.toList)
    (h : scopedId file kind name = scopedId file' kind' name') : file = file' := by
  have hlists := congrArg (reverse ∘ String.toList) h
  simp only [Function.comp_apply, scopedId, Json.display, toList_scoped, reverse_append,
    reverse_cons, append_assoc, singleton_append] at hlists
  rw [← mem_reverse] at hkind hkind' hname hname'
  obtain ⟨-, hrest⟩ := eq_of_labelled_eq hname hname' hlists
  obtain ⟨-, hrest⟩ := eq_of_labelled_eq hkind hkind' (cons.inj hrest).2
  exact String.toList_inj.1 (reverse_inj.1 (cons.inj hrest).2)

lemma id_selected (he : e ∈ selectors) (m : Match) (file : String) :
    (selected e.1 m).id file = scopedId file e.1 (String.ofList m.found.name) := by
  simp only [selectors, mem_cons, not_mem_nil, or_false] at he
  rcases he with rfl | rfl | rfl <;> rfl

lemma colon_notMem_kind (he : e ∈ selectors) : ':' ∉ e.1.toList :=
  (by decide : ∀ e ∈ selectors, ':' ∉ e.1.toList) e he

/-- Names of what is selected are made of letters, digits, underscores and hyphens. -/
lemma notMem_name (he : e ∈ selectors) {m : Match} (hm : m ∈ findAll e.2 cs) {c : Char}
    (hc : isNamePart c = false) : c ∉ (String.ofList m.found.name).toList := by
  rw [String.toList_ofList]
  suffices hparts : ∀ c ∈ m.found.name, isNamePart c = true from
    fun h ↦ Bool.false_ne_true (hc.symm.trans (hparts c h))
  simp only [selectors, mem_cons, not_mem_nil, or_false] at he
  rcases he with rfl | rfl | rfl
  · obtain ⟨-, -, -, before, h⟩ := mem_matchesFrom isFaithful_classSelector hm
    rw [classSelector.eq_def] at h
    grind [isNamePart, Char.isAlphanum, mem_takeWhile_imp]
  · obtain ⟨-, -, -, before, h⟩ := mem_matchesFrom isFaithful_idSelector hm
    rw [idSelector.eq_def] at h
    grind [isNamePart, Char.isAlphanum, mem_takeWhile_imp]
  · obtain ⟨-, -, -, before, h⟩ := mem_matchesFrom isFaithful_elementSelector hm
    rw [elementSelector.eq_def] at h
    grind [isNamePart, Char.isAlphanum, mem_takeWhile_imp]

lemma file_eq_of_id {e' : String × Finder} {m m' : Match} {cs' : List Char} {file file' : String}
    (he : e ∈ selectors) (hm : m ∈ findAll e.2 cs) (he' : e' ∈ selectors)
    (hm' : m' ∈ findAll e'.2 cs') (h : (selected e.1 m).id file = (selected e'.1 m').id file') :
    file = file' := by
  rw [id_selected he, id_selected he'] at h
  exact file_eq_of_scopedId (colon_notMem_kind he) (colon_notMem_kind he')
    (notMem_name he hm rfl) (notMem_name he' hm' rfl) h

lemma id_selected_ne {path : String} (he : e ∈ selectors) {m : Match} (hm : m ∈ findAll e.2 cs)
    (hpath : Text.endsWith path ".css" = true) (file : String) :
    (selected e.1 m).id file ≠ path := by
  rintro rfl
  rw [Text.endsWith, isPrefixOf_iff_prefix] at hpath
  obtain ⟨rest, hrest⟩ := hpath
  have hcolon : ':' ∉ (String.ofList m.found.name).toList.reverse :=
    fun h ↦ notMem_name he hm rfl (mem_reverse.1 h)
  rw [id_selected he, scopedId, Json.display, Json.display, toList_scoped] at hrest
  simp only [reverse_append, reverse_cons, append_assoc, cons_append, nil_append] at hrest
  -- The ending has no colon, so it is a part of the name.
  have hname := congrArg (takeWhile (· ≠ ':')) hrest
  rw [takeWhile_colon hcolon] at hname
  have hdot : '.' ∈ (String.ofList m.found.name).toList.reverse := by
    rw [← hname]
    simp
  exact notMem_name he hm rfl (mem_reverse.1 hdot)

lemma id_selected_eq_iff {e' : String × Finder} (he : e ∈ selectors) (he' : e' ∈ selectors)
    {m m' : Match} {file : String} :
    (selected e.1 m).id file = (selected e'.1 m').id file ↔ e.1 = e'.1 ∧
    m.found.name = m'.found.name := by
  rw [id_selected he, id_selected he']
  constructor
  · intro h
    obtain ⟨hkind, hname⟩ := scopedId_inj (colon_notMem_kind he) (colon_notMem_kind he') h
    exact ⟨hkind, String.ofList_inj.1 hname⟩
  · rintro ⟨hkind, hname⟩
    rw [hkind, hname]

/-- The first of the things of an id is the first selection of its kind and name. -/
lemma exists_first (he : e ∈ selectors) {m : Match} (hm : m ∈ findAll e.2 cs) (file : String) :
    ∃ first, (findAll e.2 cs).find? (fun x ↦ x.found.name = m.found.name) = some first ∧
      (selected e.1 first).IsFirst file
      (selectors.flatMap fun e ↦ (findAll e.2 cs).map (selected e.1)) := by
  have hsome : ((findAll e.2 cs).find? fun x ↦ x.found.name = m.found.name).isSome = true :=
    find?_isSome.2 ⟨m, hm, decide_eq_true rfl⟩
  obtain ⟨first, hfirst⟩ := Option.isSome_iff_exists.1 hsome
  have hname : first.found.name = m.found.name := by simpa using find?_some hfirst
  -- Selections of other kinds have other ids, so they do not come before it.
  have hfind (e' : String × Finder) (he' : e' ∈ selectors) :
    ((findAll e'.2 cs).map (selected e'.1)).find?
      (fun x ↦ x.id file = (selected e.1 first).id file) =
      if e'.1 = e.1 then ((findAll e'.2 cs).find? fun x ↦ x.found.name = m.found.name).map
        (selected e'.1)
      else none := by
    rw [find?_map]
    split
    next hkind =>
      have hsame : (fun x : Thing ↦ decide (x.id file = (selected e.1 first).id file)) ∘
        selected e'.1 =
          fun x ↦ decide (x.found.name = m.found.name) := by
        funext x
        rw [Function.comp_apply, decide_eq_decide, id_selected_eq_iff he' he, hname]
        exact and_iff_right hkind
      rw [hsame]
    next hkind =>
      rw [Option.map_eq_none_iff, find?_eq_none]
      simp [id_selected_eq_iff he' he, hkind]
  refine ⟨first, hfirst, ?_⟩
  obtain ⟨before, after, hsplit⟩ := append_of_mem he
  have hdistinct : (selectors.map Prod.fst).Nodup := by decide
  rw [Thing.IsFirst, find?_flatMap, findSome?_eq_some_iff]
  refine ⟨before, e, after, hsplit, ?_, fun other hother ↦ ?_⟩
  · rw [hfind e he, if_pos rfl, hfirst]
    rfl
  · have hne : other.1 ≠ e.1 := by
      rw [hsplit, map_append, map_cons, nodup_append] at hdistinct
      exact hdistinct.2.2 _ (mem_map_of_mem hother) _ mem_cons_self
    rw [hfind other (hsplit ▸ mem_append_left _ hother), if_neg hne]

/-- Each id that counts as taken has a node. -/
def Stocked (s : Sketch) : Prop := ∀ id ∈ s.nodeIds, s.draft.HasId id

lemma Stocked.addNode (h : Stocked s) {type : Json} {name id confidence : String}
    {details : List (String × Json)}
    (hid : (nodeDocument type name id confidence details).member? "id" = some (.str id)) :
    Stocked (s.addNode type name id confidence details) := by
  rw [Sketch.addNode]
  split
  · exact h
  · intro other hother
    rcases mem_cons.1 hother with rfl | hother
    · exact ⟨_, mem_append_right _ mem_cons_self, hid⟩
    · exact (h other hother).addNode _

lemma Stocked.foldl (h : Stocked s) (ts : List Thing) : Stocked (ts.foldl addThing s) := by
  induction ts generalizing s with
  | nil => exact h
  | cons t ts ih => exact ih (h.addNode rfl)

lemma stocked_ofSources (h : Orderly styles) (issued : Nat) (sources : List Source) :
    Stocked (ofSources styles issued sources) ∧ ∀ source ∈ sources, ∀ text, source.text = .ok text →
      ∀ t ∈ things styles text, t.id source.name ∈ (ofSources styles issued sources).nodeIds := by
  simp only [ofSources]
  induction sources using List.reverseRecOn with
  | nil => exact ⟨fun _ h ↦ (by cases h), fun _ h ↦ (by cases h)⟩
  | append_singleton sources last ih =>
    obtain ⟨hstocked, hthings⟩ := ih
    rw [foldl_append, foldl_cons, foldl_nil]
    generalize sources.foldl (reader styles).add { draft := { issued } } = s at hstocked hthings
    simp only [mem_append, mem_singleton, or_imp, forall_and, forall_eq]
    cases htext : last.text with
    | error f =>
      rw [Reader.add, visit_eq_error htext]
      exact ⟨hstocked, hthings, fun _ h ↦ (by cases h)⟩
    | ok text =>
      obtain ⟨done, s', -, hnames, hall, hadd⟩ := exists_names_add (o := styles) htext s
      obtain ⟨rfl, -⟩ := hall h
      have hids := (mem_foldl_addThing (file_openedAt s last text) (things styles text)).2.1
      have hopened : Stocked (openedAt s last text) :=
        Stocked.addNode (s := { s with file := some last.name }) hstocked rfl
      have hkept : s.nodeIds ⊆ (openedAt s last text).nodeIds := by
        rw [openedAt, opened, addNode]
        split
        · exact List.Subset.refl _
        · exact subset_cons_self _ _
      rw [hadd]
      refine ⟨fun id hid ↦ ?_, fun source hsource text htext t ht ↦ ?_, ?_⟩
      · rw [Draft.HasId, hnames.nodes]
        exact hopened.foldl _ id (hnames.ids ▸ hid)
      · exact hnames.ids ▸ (hids _).2 (.inl (hkept (hthings source hsource text htext t ht)))
      · rintro _ ⟨⟩ t ht
        exact hnames.ids ▸ (hids _).2 (.inr ⟨t, ht, rfl⟩)

lemma member?_id_document (t : Thing) (file : String) :
    (t.document file).member? "id" = some (.str (t.id file)) := by
  rfl

def toldState (n : Json) : Option Json := (n.member? "attributes").bind (·.member? "pseudo_state")

/-- Under the documents that come with the builder, there is one node for what is selected in a
stylesheet by a kind and a name, and it tells the state of the first selection by them. So the state
of a later one is told only if it is that of the first one. -/
theorem first_state_told (issued : Nat) {sources : List Source}
    (hdistinct : (sources.map Source.name).Nodup)
    (hpaths : ∀ source ∈ sources, Text.endsWith source.name ".css" = true)
    (hsource : source ∈ sources) (htext : source.text = .ok text) (he : e ∈ selectors) {m : Match}
    (hm : m ∈ findAll e.2 (stripComments text.toList)) :
    ∃ styles first n, outlineOf Catalog.cssInstructions Catalog.cssMapping coreRules = .ok styles ∧
      (findAll e.2 (stripComments text.toList)).find? (fun x ↦ x.found.name = m.found.name) =
        some first ∧
      n ∈ (ofSources styles issued sources).draft.nodes ∧
      n.member? "id" =
        some (.str (scopedId (.str source.name) (.str e.1) (String.ofList m.found.name))) ∧
      (∀ n' ∈ (ofSources styles issued sources).draft.nodes,
        n'.member? "id" = n.member? "id" → n' = n) ∧
      toldState n = (pseudoState? first.rest).map fun state ↦ .str (String.ofList state) := by
  obtain ⟨styles, hstyles, -⟩ := exists_styles
  obtain ⟨horderly, hmapping⟩ := orderly_of_outlineOf hstyles
  obtain ⟨first, hfind, hfirst⟩ := exists_first he hm source.name
  have hname : first.found.name = m.found.name := by simpa using find?_some hfind
  have hmem := mem_of_find?_eq_some hfind
  rw [← things_eq hmapping] at hfirst
  -- Only what this file names has ids that start with its path.
  have honly (n : Json) (hn : n ∈ (ofSources styles issued sources).draft.nodes)
      (hid : n.member? "id" = some (.str ((selected e.1 first).id source.name))) :
      n = (selected e.1 first).document source.name := by
    obtain ⟨other, hother, text', htext', rfl | ⟨t, ht, rfl⟩⟩ := mem_nodes_ofSources hn
    · exact absurd (Json.str.inj (Option.some.inj hid)).symm
        (id_selected_ne he hmem (hpaths other hother) source.name)
    · have hid := Json.str.inj (Option.some.inj hid)
      have hthing := mem_of_find?_eq_some ht
      rw [things_eq hmapping] at hthing
      obtain ⟨e', he', hthing⟩ := mem_flatMap.1 hthing
      obtain ⟨m', hm', rfl⟩ := mem_map.1 hthing
      obtain rfl := inj_on_of_nodup_map hdistinct hother hsource (file_eq_of_id he' hm' he hmem hid)
      obtain rfl := Except.ok.inj (htext.symm.trans htext')
      rw [Thing.IsFirst, hid] at ht
      rw [Option.some.inj (ht.symm.trans hfirst)]
  obtain ⟨hstocked, htaken⟩ := stocked_ofSources horderly issued sources
  obtain ⟨n, hn, hid⟩ :=
    hstocked _ (htaken source hsource text htext _ (mem_of_find?_eq_some hfirst))
  obtain rfl := honly n hn hid
  refine ⟨styles, first, _, hstyles, hfind, hn, ?_, fun n' hn' hsame ↦ honly n' hn' hsame, ?_⟩
  · rw [member?_id_document, id_selected he, hname]
  · have hattributes : ((selected e.1 first).document source.name).member? "attributes" =
        some (attributesOf first) := rfl
    rw [toldState, hattributes, Option.bind_some, attributesOf]
    cases pseudoState? first.rest with
    | none => rfl
    | some state => rfl

/-- A class that is selected by itself and then in a state. -/
def hoverSource : Source :=
  ⟨"a.css", "/p/a.css", .ok ".btn \x7b color: red \x7d\n.btn:hover \x7b color: blue \x7d\n"⟩

def hoverMatches : List Match :=
  findAll classSelector
  (stripComments ".btn \x7b color: red \x7d\n.btn:hover \x7b color: blue \x7d\n".toList)

theorem first_state_told_hover : ∃ m ∈ hoverMatches, pseudoState? m.rest = some "hover".toList ∧
    ∃ styles n, outlineOf Catalog.cssInstructions Catalog.cssMapping coreRules = .ok styles ∧
      n ∈ (ofSources styles 0 [hoverSource]).draft.nodes ∧
      n.member? "id" =
      some (.str (scopedId (.str "a.css") (.str "StyleClass") (String.ofList m.found.name))) ∧
      toldState n = none := by
  have hsecond : ∃ m ∈ hoverMatches, pseudoState? m.rest = some "hover".toList ∧
      ((hoverMatches.find? fun x ↦ x.found.name = m.found.name).bind fun x ↦ pseudoState? x.rest) =
      none := by
    decide +kernel
  obtain ⟨m, hm, hstate, hnone⟩ := hsecond
  have hdistinct : ([hoverSource].map Source.name).Nodup := by decide
  have hclass : ("StyleClass", classSelector) ∈ selectors := by simp [selectors]
  obtain ⟨styles, first, n, hstyles, hfirst, hn, hid, -, htold⟩ :=
    first_state_told 0 hdistinct (by decide) mem_cons_self rfl hclass hm
  refine ⟨m, hm, hstate, styles, n, hstyles, hn, hid, ?_⟩
  have hlost : pseudoState? first.rest = none := by
    rw [show hoverMatches.find? _ = some first from hfirst] at hnone
    exact hnone
  rw [htold, hlost]
  rfl

/-- The second selection is about a state, and the node of the class tells none. -/
theorem later_state_lost :
    hoverMatches.map
    (fun m ↦ (String.ofList m.found.name, (pseudoState? m.rest).map String.ofList)) =
      [("btn", none), ("btn", some "hover")] ∧
    ((outlineOf Catalog.cssInstructions Catalog.cssMapping coreRules).toOption.map fun styles ↦
      ((ofSources styles 0 [hoverSource]).draft.nodes.filter fun n ↦
        (n.member? "id").bind Json.asStr? = some "a.css::StyleClass::btn").map fun n ↦
        (toldState n).isSome) =
      some [false] := by
  decide +kernel

end CodeAtlas.Build.StyleGraph
