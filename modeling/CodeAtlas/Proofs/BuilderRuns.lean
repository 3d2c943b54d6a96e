import CodeAtlas.Command.Assemble
import CodeAtlas.Proofs.Fallible
import CodeAtlas.Proofs.Scanning

/-!
# Runs of builders

What a builder is told settles how it drafts a graph of sources and what it writes above the graph.
The rest of a run is the same for all builders: the directory is scanned, the graph of what was
found is drafted, and it is written where it is to go.
-/

namespace CodeAtlas.Build

open Fallible CodeAtlas.Command CodeAtlas.Build.Language CodeAtlas.Tree

variable {documents : Json × Json × Json} {tree : Tree}
variable {c : Configuration} {s : Session}

/-- What a builder makes of its documents: how it drafts a graph, with tickets numbered after those
already issued, and what it writes above one at a given time. -/
structure Plan where
  draft : Nat → List Source → Draft
  header : String → List (String × Json)

namespace Language

/-- The files that a builder looks for. -/
def pattern : Language → String
  | .python => "*.py"
  | .html => "*.html"
  | .css => "*.css"

/-- The plan of a builder under its instructions, its mapping and a schema of edges. -/
def plan (instructions mapping edges : Json) : Language → Except Fault Plan
  | .python => do
    let schema ← Schema.ofDocuments mapping edges
    let version ← builderVersion instructions
    let schemaVersion ←
      (← mapping.getD "_meta" (.obj [])).getD "supported_core_schema" (.str "unknown")
    return ⟨fun issued sources ↦ (surveySources ⟨schema, instructions⟩ issued sources).draft,
      fun now ↦ [("builder", .str (Language.program .python)), ("builder_version", version),
        ("schema_version", schemaVersion), ("generated_at", .str now)]⟩
  | .html => do
    let setup ← MarkupGraph.Setup.ofDocuments instructions mapping (← EdgeRules.ofDocument edges)
    let version ← builderVersion instructions
    return ⟨fun issued sources ↦ (MarkupGraph.ofSources setup issued sources).draft,
      fun now ↦ [("builder", .str (Language.program .html)), ("builder_version", version),
        ("generated_at", .str now)]⟩
  | .css => do
    let o ← StyleGraph.outlineOf instructions mapping (← EdgeRules.ofDocument edges)
    let version ← builderVersion instructions
    return ⟨fun issued sources ↦ (StyleGraph.ofSources o issued sources).draft,
      fun now ↦ [("builder", .str (Language.program .css)), ("builder_version", version),
        ("generated_at", .str now)]⟩

end Language

/-- A place where a file can be written. -/
structure Writable (t : Tree) (out : Path) : Prop where
  place : out.IsPlace
  located : t.locate out = .ok out.parts
  free : t.entry? out.parts ≠ some .directory
  parent : t.isDirectory out.parent = true

lemma lift_of_ok {α : Type} {x : Except Fault α} {a : α} (h : x = .ok a) (s : Session) :
    (liftM x : Command α) s = .ok a s := by
  rw [h]
  rfl

lemma absolute_of_isPlace {p : Path} (hp : p.IsPlace) (s : Session) : absolute p s = .ok p s := by
  rw [run_absolute, hp.join]

lemma writeNamed_text {p : Path} (hp : p.IsPlace) (content : String) :
    writeNamed p.text content = writeText p content := by
  have hname : (p.text == "") = false := by
    rw [beq_eq_false_iff_ne]
    intro hempty
    have hroot := congrArg Path.root hp.ofText_text
    rw [hempty, hp.root] at hroot
    exact absurd hroot (by decide)
  rw [writeNamed, hname, if_neg Bool.false_ne_true, hp.ofText_text]
  rfl

lemma inspect_of_located {test : Tree → Path → Bool} {p : Path} {spot : List String}
    (hp : p.IsPlace) (h : s.tree.locate p = .ok spot) :
    inspect test p s = .ok (test s.tree p) s := by
  rw [inspect, bind_of_ok (run_get s), bind_of_ok (absolute_of_isPlace hp s), h]
  rfl

lemma load_of_gives (h : Gives c.load s documents) :
    ∃ t, c.load s = .ok documents t ∧ Printed s t := by
  have htells : OnlyTells (attempt do
      let instructions ← readJson c.instructions
      let mapping ← readJson c.mapping
      let edges ← readJson c.edges
      return (instructions, mapping, edges)) :=
    .attempt (.bind (.readJson _) fun _ ↦ .bind (.readJson _) fun _ ↦
      .bind (.readJson _) fun _ ↦ .pure _)
  obtain ⟨t, ht⟩ := h
  refine ⟨t, ht, ?_⟩
  rw [Configuration.load] at ht
  obtain ⟨loaded, u, hu, -⟩ | ⟨f, u, hu, -⟩ := htells.cases s
  · obtain ⟨u', hu', hprinted⟩ := htells.printed_of_gives ⟨u, hu⟩
    rw [bind_of_ok hu'] at ht
    cases loaded with
    | ok found =>
      cases ht
      exact hprinted
    | error f => cases ht
  · rw [bind_of_error hu] at ht
    cases ht

namespace Writable

variable {out : Path}

lemma write (h : Writable s.tree out) (shown : String) (b : ByteArray) :
    ∃ t, s.tree.write out shown b = .ok t ∧ t.entry? out.parts = some (.file b) := by
  obtain ⟨spot, hlocate, hentry⟩ := locate_of_isDirectory h.parent
  have hspot : spot = out.parts.dropLast := (locate_eq hlocate).trans h.place.parent.collapse
  rw [hspot] at hentry
  have hwrite : s.tree.write out shown b = .ok (s.tree.set out.parts (.file b)) := by
    rw [Tree.write, h.located]
    dsimp only
    split
    next hdirectory => exact absurd hdirectory h.free
    next => rw [hentry]
  have hwritten := entry?_of_write hwrite
  rw [h.place.collapse] at hwritten
  exact ⟨_, hwrite, hwritten⟩

lemma writeText (h : Writable s.tree out) (content : String) :
    ∃ t, writeText out content s = .ok () t ∧
      t.tree.entry? out.parts = some (.file content.toUTF8) := by
  obtain ⟨tree, hwrite, hentry⟩ := h.write out.text content.toUTF8
  refine ⟨{ s with tree }, ?_, hentry⟩
  rw [Command.writeText, bind_of_ok (run_get s), bind_of_ok (absolute_of_isPlace h.place s), hwrite]
  rfl

lemma writeNamed (h : Writable s.tree out) (content : String) :
    ∃ t, writeNamed out.text content s = .ok () t ∧
      t.tree.entry? out.parts = some (.file content.toUTF8) := by
  rw [writeNamed_text h.place]
  exact h.writeText content

lemma writeGraph (h : Writable s.tree out) (graph : Json) :
    ∃ t, Build.writeGraph out graph s = .ok () t ∧
      t.tree.entry? out.parts = some (.file graph.pretty.toUTF8) := by
  have hensure : ensureDirectory out.parent s = .ok () s := by
    have hparent : s.tree.ensureDirectory s.cwd out.parent = .ok s.tree := by
      apply ensureDirectory_of_isDirectory
      rw [h.place.parent.join]
      exact h.parent
    rw [Command.ensureDirectory, bind_of_ok (run_get s), hparent]
    rfl
  obtain ⟨t, ht, hentry⟩ := h.writeText graph.pretty
  refine ⟨t, ?_, hentry⟩
  rw [Build.writeGraph, bind_of_ok hensure]
  exact ht

lemma writeGraph_say (h : Writable tree out) (hs : s.tree = tree) (d : Draft)
    (header : List (String × Json)) (line : String) :
    ∃ t header', (Build.writeGraph out (d.document header) >>= fun _ ↦ say line) s = .ok () t ∧
      t.tree.entry? out.parts = some (.file (d.document header').pretty.toUTF8) := by
  obtain ⟨t, ht, hentry⟩ := (hs ▸ h).writeGraph (d.document header)
  rw [bind_of_ok ht]
  exact ⟨_, header, rfl, hentry⟩

lemma writeNamed_bind (h : Writable tree out) {f : Except Fault Unit → Command Unit}
    (hs : s.tree = tree) (hf : ∀ u, ∃ v, f (.ok ()) u = .ok () v ∧ v.tree = u.tree) (d : Draft)
    (header : List (String × Json)) :
    ∃ t header', (attempt (Command.writeNamed out.text (d.document header).pretty) >>= f) s =
      .ok () t ∧ t.tree.entry? out.parts = some (.file (d.document header').pretty.toUTF8) := by
  obtain ⟨u, hu, hentry⟩ := (hs ▸ h).writeNamed (d.document header).pretty
  have hattempt : attempt (Command.writeNamed out.text (d.document header).pretty) s =
      .ok (.ok ()) u := by
    rw [attempt, hu]
  obtain ⟨t, ht, htree⟩ := hf u
  rw [bind_of_ok hattempt]
  exact ⟨t, header, ht, htree ▸ hentry⟩

end Writable

/-- A session in which a builder can run: it has the documents and the exclusions, and the directory
is there. -/
structure Ready (c : Configuration) (root : Path) (documents : Json × Json × Json) (e : Exclusions)
    (patterns : List String) (s : Session) : Prop where
  documents : Gives c.load s documents
  exclusions : Gives (loadExclusions c.rules) s e
  patterns : e.HasPatterns patterns
  place : root.IsPlace
  directory : s.tree.isDirectory root = true

/-- A builder that is run on a directory ends well and leaves the graph of a draft at a place. -/
def Emits (l : Language) (c : Configuration) (root out : Path) (s : Session) (d : Draft) : Prop :=
  ∃ t header, buildGraph l c root.text out.text s = .ok () t ∧
    t.tree.entry? out.parts = some (.file (d.document header).pretty.toUTF8)

namespace Ready

variable {plan : Plan}
variable {root out : Path} {instructions mapping edges : Json} {e : Exclusions}
  {patterns : List String} {t : Session}

lemma of_printed (h : Ready c root documents e patterns s) (hprinted : Printed s t) :
    t.tree.isDirectory root = true ∧ Gives (loadExclusions c.rules) t e := by
  have hsame := hprinted.sameFiles
  refine ⟨hsame.tree ▸ h.directory, ?_⟩
  exact ((onlyTells_loadExclusions c.rules).gives_congr hsame).2 h.exclusions

lemma resolve (h : Ready c root documents e patterns s) :
    resolve (Path.ofText root.text) s = .ok root s := by
  show EStateM.Result.ok ((Path.ofText root.text).resolve s.cwd) s = _
  rw [h.place.ofText_text, h.place.resolve]

lemma isFile (h : Ready c root documents e patterns s) (hprinted : Printed s t) :
    isFile root t = .ok false t := by
  obtain ⟨spot, hlocate, hentry⟩ := locate_of_isDirectory (h.of_printed hprinted).1
  rw [Command.isFile, inspect_of_located h.place hlocate, Tree.isFile, find?, hlocate]
  dsimp only
  rw [hentry]

lemma chooseFiles (h : Ready c root documents e patterns s) (hprinted : Printed s t)
    (pattern : String) :
    ∃ u, Build.chooseFiles c.rules root pattern t =
      .ok (root, (scanned e patterns pattern s.tree root).map
      fun rest ↦ ⟨root.root, root.parts ++ rest⟩) u ∧ Printed s u := by
  obtain ⟨hdirectory, hexclusions⟩ := h.of_printed hprinted
  obtain ⟨u, hscan, hu⟩ := scan_eq h.patterns hexclusions h.place hdirectory pattern
  refine ⟨u, ?_, hprinted.trans hu⟩
  rw [hprinted.sameFiles.tree] at hscan
  rw [Build.chooseFiles, bind_of_ok (h.isFile hprinted), if_neg Bool.false_ne_true,
    bind_of_ok hscan]
  rfl

lemma map_sourceAt (pattern : String) (tree : Tree) :
    ((scanned e patterns pattern tree root).map fun rest ↦
      (⟨root.root, root.parts ++ rest⟩ : Path)).map (sourceAt tree root) =
      sourcesIn e patterns pattern tree root := by
  rw [List.map_map]
  rfl

lemma chooseStylesheets (h : Ready c root documents e patterns s) (hprinted : Printed s t) :
    ∃ u, StyleGraph.chooseStylesheets c.rules root t = .ok (root, (scanned e patterns "*.css" s.tree
      root).map fun rest ↦ ⟨root.root, root.parts ++ rest⟩) u ∧ Printed s u := by
  obtain ⟨hdirectory, -⟩ := h.of_printed hprinted
  obtain ⟨spot, hlocate, -⟩ := locate_of_isDirectory hdirectory
  have hisDirectory : isDirectory root t = .ok true t := by
    rw [Command.isDirectory, inspect_of_located h.place hlocate, hdirectory]
  have hsame : StyleGraph.chooseStylesheets c.rules root t = Build.chooseFiles c.rules
      root "*.css" t := by
    rw [StyleGraph.chooseStylesheets, bind_of_ok (h.isFile hprinted), if_neg Bool.false_ne_true,
      bind_of_ok hisDirectory, Build.chooseFiles, bind_of_ok (h.isFile hprinted)]
    rfl
  rw [hsame]
  exact h.chooseFiles hprinted "*.css"

lemma isPresent (h : Ready c root documents e patterns s) (hprinted : Printed s t) :
    ∃ present, isPresent root t = .ok present t := by
  obtain ⟨spot, hlocate, -⟩ := locate_of_isDirectory (h.of_printed hprinted).1
  exact ⟨_, inspect_of_located h.place hlocate⟩

section

variable (h : Ready c root (instructions, mapping, edges) e patterns s) (hout : Writable s.tree out)
include h hout

lemma emits_python (hplan : Language.plan instructions mapping edges .python = .ok plan) :
    Emits .python c root out s
      (plan.draft s.issued (sourcesIn e patterns (pattern .python) s.tree root)) := by
  simp only [Language.plan, bind_eq_ok, pure_eq_ok] at hplan
  obtain ⟨schema, hschema, version, hversion, described, hdescribed, schemaVersion, hschemaVersion,
    rfl⟩ := hplan
  obtain ⟨t₁, hload, ht₁⟩ := load_of_gives h.documents
  obtain ⟨t₂, hfiles, text, rfl⟩ := h.chooseFiles ht₁ "*.py"
  rw [Emits, buildGraph, buildScriptGraph, bind_of_ok h.resolve, bind_of_ok hload]
  dsimp only
  rw [bind_of_ok (lift_of_ok hschema t₁), bind_of_ok hfiles]
  rw [bind_of_ok (run_say _ _), bind_of_ok (run_get _), bind_of_ok (run_set _ _), map_sourceAt,
    bind_of_ok (lift_of_ok hversion _), bind_of_ok (lift_of_ok hdescribed _),
    bind_of_ok (lift_of_ok hschemaVersion _), hout.place.ofText_text]
  apply Writable.writeGraph_say hout
  rfl

lemma emits_html (hplan : Language.plan instructions mapping edges .html = .ok plan) :
    Emits .html c root out s
      (plan.draft s.issued (sourcesIn e patterns (pattern .html) s.tree root)) := by
  simp only [Language.plan, bind_eq_ok, pure_eq_ok] at hplan
  obtain ⟨rules, hrules, setup, hsetup, version, hversion, rfl⟩ := hplan
  obtain ⟨t₁, hload, ht₁⟩ := load_of_gives h.documents
  obtain ⟨t₂, hfiles, text, rfl⟩ := h.chooseFiles ht₁ "*.html"
  rw [Emits, buildGraph, buildMarkupGraph, bind_of_ok h.resolve, bind_of_ok hload]
  dsimp only
  rw [bind_of_ok (lift_of_ok hrules t₁), bind_of_ok hfiles]
  rw [bind_of_ok (lift_of_ok hsetup _), bind_of_ok (run_say _ _), bind_of_ok (run_get _),
    bind_of_ok (run_set _ _), map_sourceAt, bind_of_ok (lift_of_ok hversion _),
    hout.place.ofText_text]
  apply Writable.writeGraph_say hout
  rfl

lemma emits_css (hplan : Language.plan instructions mapping edges .css = .ok plan) :
    Emits .css c root out s
      (plan.draft s.issued (sourcesIn e patterns (pattern .css) s.tree root)) := by
  simp only [Language.plan, bind_eq_ok, pure_eq_ok] at hplan
  obtain ⟨rules, hrules, o, ho, version, hversion, rfl⟩ := hplan
  obtain ⟨t₁, hload, ht₁⟩ := load_of_gives h.documents
  obtain ⟨present, hpresent⟩ := h.isPresent ht₁
  have hsaid (line : String) : Printed s (said t₁ line) := ht₁.trans ⟨_, rfl⟩
  rw [Emits, buildGraph, buildStyleGraph, bind_of_ok h.resolve, bind_of_ok hload]
  dsimp only
  rw [bind_of_ok (lift_of_ok hrules t₁), bind_of_ok (lift_of_ok ho t₁), bind_of_ok hpresent,
    bind_of_ok (h.isFile ht₁), bind_of_ok (run_say _ _)]
  obtain ⟨t₂, hfiles, text, rfl⟩ := h.chooseStylesheets (hsaid _)
  rw [bind_of_ok hfiles]
  rw [bind_of_ok (run_say _ _), bind_of_ok (run_get _), bind_of_ok (run_set _ _), map_sourceAt,
    bind_of_ok (lift_of_ok hversion _)]
  apply Writable.writeNamed_bind hout
  · rfl
  · exact fun u ↦ ⟨_, rfl, rfl⟩

lemma emits {l : Language} (hplan : l.plan instructions mapping edges = .ok plan) :
    Emits l c root out s (plan.draft s.issued (sourcesIn e patterns l.pattern s.tree root)) := by
  cases l with
  | python => exact h.emits_python hout hplan
  | html => exact h.emits_html hout hplan
  | css => exact h.emits_css hout hplan

end

end Ready

end CodeAtlas.Build
