import CodeAtlas.Proofs.MarkupTraces

/-!
# Values with a template expression

A value with a mark of a template expression in it becomes a ticket and never a node. Which marks
there are is up to the instructions. Without a policy they are the openings of expressions; the
builder's own instructions give expressions with a blank between their ends, and other expressions
become nodes.
-/

namespace CodeAtlas.Build.MarkupGraph

open List Fallible Stepwise Sketch Json

variable {setup : Setup} {s s' : Sketch} {file : String} {hit : Json × String}

/-- The node of a file, or one whose name has no mark in it. -/
def IsPlain (setup : Setup) (n : Json) : Prop :=
  n.member? "node_type" = some (.str "Template") ∨
    ∃ name, n.member? "name" = some (.str name) ∧ isMarked setup name = false

/-- A ticket about a file tells that a value has a template expression in it. -/
def Reports (file value : String) (ticket : Json) : Prop :=
  ticket.member? "kind" = some (.str "dynamic_value_unresolved") ∧
    ticket.member? "source_file" = some (.str file) ∧ ticket.member? "expression" =
    some (.str value)

/-- A sketch that reads a file and has plain nodes. -/
structure ReadsPlain (setup : Setup) (file : String) (s : Sketch) : Prop where
  file : s.file = some file
  nodes : ∀ n ∈ s.draft.nodes, IsPlain setup n

lemma Leaves.plain (h : Leaves setup hit s s') (hs : ReadsPlain setup file s) :
    ReadsPlain setup file s' := by
  refine ⟨h.file.trans hs.file, fun n hn ↦ ?_⟩
  obtain ⟨new, hnew, hnames⟩ := h.nodes
  rw [hnew] at hn
  rcases mem_append.1 hn with hn | hn
  · exact hs.nodes n hn
  · refine .inr ⟨hit.2, hnames n hn, ?_⟩
    by_contra hmarked
    rw [h.marked (by simpa using hmarked), self_eq_append_right] at hnew
    rw [hnew] at hn
    cases hn

lemma Leaves.tickets (h : Leaves setup hit s s') : s.draft.ambiguities ⊆ s'.draft.ambiguities := by
  cases h.trace with
  | ticket h =>
    rw [h]
    exact subset_append_left _ _
  | link _ _ _ _ _ _ _ htickets => exact htickets ▸ List.Subset.refl _

lemma Leaves.reports (h : Leaves setup hit s s') (hs : ReadsPlain setup file s)
    (hmarked : isMarked setup hit.2 = true) :
    ∃ ticket ∈ s'.draft.ambiguities, Reports file hit.2 ticket := by
  cases h.trace with
  | @ticket t number resolver h hfile _ hkind =>
    rw [Explains, if_pos hmarked] at hkind
    rw [fileJson, hs.file] at hfile
    refine ⟨t.document number resolver, by simp [h], ?_, ?_, ?_⟩
    · exact congrArg (some <| str ·) hkind.1
    · exact congrArg some hfile
    · exact congrArg some hkind.2
  | link hplain =>
    rw [hmarked] at hplain
    cases hplain

lemma reports_of_leaves {is : List (Json × String)} (h : Through (Leaves setup) is s s')
    (hs : ReadsPlain setup file s) : ReadsPlain setup file s' ∧
    s.draft.ambiguities ⊆ s'.draft.ambiguities ∧
      ∀ hit ∈ is, isMarked setup hit.2 = true → ∃ ticket ∈ s'.draft.ambiguities,
        Reports file hit.2 ticket := by
  induction h with
  | nil => exact ⟨hs, List.Subset.refl _, by simp⟩
  | cons hstep _ ih =>
    obtain ⟨hplain, hkept, hreports⟩ := ih (hstep.plain hs)
    refine ⟨hplain, List.Subset.trans hstep.tickets hkept,
      forall_mem_cons.2 ⟨fun hmarked ↦ ?_, hreports⟩⟩
    obtain ⟨ticket, hticket, h⟩ := hstep.reports hs hmarked
    exact ⟨ticket, hkept hticket, h⟩

/-- What is left of reading a file: its node, and what the values on its tags leave. An error comes
last. -/
lemma leaves_add (horderly : setup.Orderly) (hs : s.Consistent) {source : Source} {text : String}
    (htext : source.text = .ok text) : ∃ s' logs, s'.Consistent ∧
      Through (Leaves setup) ((Markup.scan text).tags.flatMap (hits setup.outline.mapping))
        (s.opened "Template" source.name "structural" ((reader setup).details text)) s' ∧
      (reader setup).add s source = { s' with draft := { s'.draft with logs } } := by
  have hdetails : AreDetails ((reader setup).details text) :=
    by simp [reader, AreDetails, Table.keys]
  have hends : Ends setup.Orderly _ _ _ := Ends.forM ends_visitTag (Markup.scan text).tags
    (s.opened "Template" source.name "structural" ((reader setup).details text))
  obtain ⟨_, s', hrun⟩ := hends.2 horderly
  obtain ⟨hconsistent, hleaves⟩ := leaves_of_steps (hends.1 _ s' hrun) (hs.opened _ _ _ hdetails)
  cases hfault : (Markup.scan text).fault with
  | none =>
    have hvisit : (reader setup).visit source s = .ok () s' := by
      rw [Reader.visit, htext]
      refine (bind_of_ok hrun).trans ?_
      rw [hfault]
      rfl
    rw [Reader.add, hvisit]
    exact ⟨s', s'.draft.logs, hconsistent, hleaves, rfl⟩
  | some f =>
    have hvisit : (reader setup).visit source s = .error f s' := by
      rw [Reader.visit, htext]
      refine (bind_of_ok hrun).trans ?_
      rw [hfault]
      rfl
    rw [Reader.add, hvisit]
    exact ⟨s', _, hconsistent, hleaves, rfl⟩

/-- A sketch whose ids and edges are there and whose nodes are plain. -/
structure Plain (setup : Setup) (s : Sketch) : Prop extends s.Consistent where
  plain : ∀ n ∈ s.draft.nodes, IsPlain setup n

lemma plain_opened (h : Plain setup s) (name confidence : String) {details : List (String × Json)}
    (hdetails : AreDetails details) :
    ReadsPlain setup name (s.opened "Template" name confidence details) ∧
      (s.opened "Template" name confidence details).draft.ambiguities = s.draft.ambiguities := by
  have hopen : Consistent { s with file := some name } := ⟨h.nodes, h.edges⟩
  obtain ⟨-, -, hadded⟩ := hopen.addNode "Template" name name confidence hdetails
  refine ⟨⟨hadded.file, fun n hn ↦ ?_⟩, hadded.tickets⟩
  rw [opened, addNode] at hn
  split at hn
  · exact h.plain n hn
  · rcases mem_append.1 hn with hn | hn
    · exact h.plain n hn
    · obtain rfl := mem_singleton.1 hn
      exact .inl (member?_nodeDocument hdetails (by simp))

/-- Each value with a mark on a tag of a file is reported. -/
def AllReported (setup : Setup) (source : Source) (tickets : List Json) : Prop :=
  ∀ text, source.text = .ok text → ∀ tag ∈ (Markup.scan text).tags,
    ∀ hit ∈ hits setup.outline.mapping tag,
    isMarked setup hit.2 = true → ∃ ticket ∈ tickets, Reports source.name hit.2 ticket

lemma plain_add (horderly : setup.Orderly) (hs : Plain setup s) (source : Source) :
    Plain setup ((reader setup).add s source) ∧
      s.draft.ambiguities ⊆ ((reader setup).add s source).draft.ambiguities ∧
      AllReported setup source ((reader setup).add s source).draft.ambiguities := by
  cases htext : source.text with
  | error f =>
    have hadd : (reader setup).add s source =
        { s with draft := s.draft.addLog ((reader setup).entry source f s) } := by
      rw [Reader.add, Reader.visit, htext]
      rfl
    rw [hadd]
    refine ⟨⟨⟨hs.nodes, hs.edges⟩, hs.plain⟩, List.Subset.refl _, fun text h ↦ ?_⟩
    rw [htext] at h
    cases h
  | ok text =>
    have hdetails : AreDetails ((reader setup).details text) :=
      by simp [reader, AreDetails, Table.keys]
    obtain ⟨s', logs, hconsistent, hleaves, hadd⟩ := leaves_add horderly hs.toConsistent htext
    obtain ⟨hopened, htickets⟩ := plain_opened hs source.name "structural" hdetails
    obtain ⟨hplain, hkept, hreports⟩ := reports_of_leaves hleaves hopened
    rw [hadd]
    refine ⟨⟨⟨hconsistent.nodes, hconsistent.edges⟩, hplain.nodes⟩, htickets ▸ hkept,
      fun text' h tag htag ↦ ?_⟩
    cases htext.symm.trans h
    exact fun hit hhit ↦ hreports hit (mem_flatMap.2 ⟨tag, htag, hhit⟩)

lemma plain_ofSources (horderly : setup.Orderly) (issued : Nat) (sources : List Source) :
    Plain setup (ofSources setup issued sources) ∧
      ∀ source ∈ sources,
        AllReported setup source (ofSources setup issued sources).draft.ambiguities := by
  rw [ofSources]
  induction sources using reverseRecOn with
  | nil => exact ⟨⟨consistent_start issued, by simp⟩, by simp⟩
  | append_singleton sources source ih =>
    obtain ⟨hplain, hreported⟩ := ih
    obtain ⟨hafter, hkept, hlast⟩ := plain_add horderly hplain source
    rw [foldl_append, foldl_cons, foldl_nil]
    refine ⟨hafter, fun source' hsource ↦ ?_⟩
    rcases mem_append.1 hsource with hsource | hsource
    · intro text htext tag htag hit hhit hmarked
      obtain ⟨ticket, hticket, h⟩ := hreported source' hsource text htext tag htag hit hhit hmarked
      exact ⟨ticket, hkept hticket, h⟩
    · exact mem_singleton.1 hsource ▸ hlast

lemma isMarked_iff {marks : List String} (h : setup.marks = .arr (marks.map str)) {value : String} :
    isMarked setup value = true ↔ ∃ mark ∈ marks, Text.occursIn mark value = true := by
  simp [isMarked, itemsOf, h, elements, Except.toOption, asStr?]

/-- The marks that instructions without a policy leave. -/
def openings : List String := ["\x7b\x7b", "\x7b%"]

/-- With the builder's mapping, no node but that of a file has a mark of the instructions in its
name, and each value with a mark that a rule speaks of is reported. The builder's own instructions
have whole expressions for marks; those without a policy would have the openings of expressions. -/
theorem marked_values_reported {instructions : Json} {setup : Setup}
    (hsetup : Setup.ofDocuments instructions Catalog.htmlMapping coreRules = .ok setup)
    (hresolver : ∃ resolver, resolverOf instructions = .ok resolver) (marks : List String)
    (hmarks : setup.marks = .arr (marks.map str)) (issued : Nat) (sources : List Source) :
    let draft := (ofSources setup issued sources).draft
    (∀ n ∈ draft.nodes, n.member? "node_type" = some (.str "Template") ∨
      ∃ name, n.member? "name" = some (.str name) ∧
        ∀ mark ∈ marks, Text.occursIn mark name = false) ∧
    (∀ source ∈ sources, ∀ text, source.text = .ok text → ∀ tag ∈ (Markup.scan text).tags,
      ∀ hit ∈ hits Catalog.htmlMapping tag, ∀ mark ∈ marks, Text.occursIn mark hit.2 = true →
        ∃ ticket ∈ draft.ambiguities, Reports source.name hit.2 ticket) ∧
    (instructions = Catalog.htmlInstructions → marks = ["\x7b\x7b \x7d\x7d", "\x7b% %\x7d"]) ∧
    (instructions.member? "dynamic_content_policy" = none → marks = openings) := by
  simp only [Setup.ofDocuments, bind_eq_ok, pure_eq_ok] at hsetup
  obtain ⟨known, -, policy, hpolicy, found, hfound, rfl⟩ := hsetup
  obtain ⟨hplain, hreported⟩ :=
    plain_ofSources (orderly_of_mapping rfl rfl ⟨marks, hmarks⟩ hresolver) issued sources
  have hfound' {texts : List String} (h : found = .arr (texts.map str)) : marks = texts := by
    have hlists : marks.map str = texts.map str := arr.inj (hmarks.symm.trans h)
    exact map_injective_iff.2 (fun _ _ h ↦ str.inj h) hlists
  refine ⟨fun n hn ↦ ?_, fun source hsource text htext tag htag hit hhit mark hmark hin ↦ ?_,
    ?_, fun hnone ↦ ?_⟩
  · refine (hplain.plain n hn).imp_right fun h ↦ ?_
    obtain ⟨name, hname, hfree⟩ := h
    refine ⟨name, hname, fun mark hmark ↦ ?_⟩
    by_contra hin
    rw [(isMarked_iff hmarks).2 ⟨mark, hmark, by simpa using hin⟩] at hfree
    cases hfree
  · exact hreported source hsource text htext tag htag hit hhit
      ((isMarked_iff hmarks).2 ⟨mark, hmark, hin⟩)
  · rintro rfl
    cases hpolicy
    cases hfound
    exact hfound' rfl
  · have hempty := (getD_eq_ok.1 hpolicy).2
    rw [hnone] at hempty
    subst hempty
    cases hfound
    exact hfound' rfl

/-- A page with an empty expression for a picture. -/
def blankSource : Source := ⟨"a.html", "/p/a.html", .ok "<img src=\"\x7b\x7b \x7d\x7d\">"⟩

theorem marked_values_reported_blank :
    ∃ ticket ∈ (ofSources markupSetup 0 [blankSource]).draft.ambiguities,
      Reports "a.html" "\x7b\x7b \x7d\x7d" ticket := by
  have hthere : ((Markup.scan "<img src=\"\x7b\x7b \x7d\x7d\">").tags.any fun tag ↦
      (hits Catalog.htmlMapping tag).any fun hit ↦ hit.2 == "\x7b\x7b \x7d\x7d") = true :=
      by decide +kernel
  simp only [any_eq_true, beq_iff_eq] at hthere
  obtain ⟨tag, htag, hit, hhit, hvalue⟩ := hthere
  obtain ⟨-, hreported, -⟩ := marked_values_reported ofDocuments_markupSetup ⟨_, rfl⟩
    ["\x7b\x7b \x7d\x7d", "\x7b% %\x7d"] rfl 0 [blankSource]
  have hreport := hreported blankSource (mem_singleton_self _) _ rfl tag htag hit hhit
    "\x7b\x7b \x7d\x7d" mem_cons_self
  rw [hvalue] at hreport
  exact hreport (by decide)

/-- A page with an expression for a picture. -/
def logoSource : Source := ⟨"a.html", "/p/a.html", .ok "<img src=\"\x7b\x7b logo \x7d\x7d\">"⟩

/-- The expression becomes an asset, and there is no ticket. -/
theorem expression_linked_as_asset :
    let draft := (ofSources markupSetup 0 [logoSource]).draft
    draft.nodes.map (fun n ↦
        ((n.member? "node_type").bind asStr?, (n.member? "name").bind asStr?)) =
      [(some "Template", some "a.html"), (some "StaticAsset", some "\x7b\x7b logo \x7d\x7d")] ∧
    draft.edges.length = 1 ∧ draft.ambiguities.isEmpty = true := by
  decide +kernel

end CodeAtlas.Build.MarkupGraph
