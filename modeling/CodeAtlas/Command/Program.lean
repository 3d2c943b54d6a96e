import CodeAtlas.Command.Ask
import CodeAtlas.Command.Enrich
import CodeAtlas.Command.Trial
import CodeAtlas.Graph.Demonstration
import CodeAtlas.Graph.Notes
import CodeAtlas.Inventory.FileCard

/-!
# Programs

A profile names the languages and frameworks of a project and where the project is. It is valid if a
builder is there for every language and an adapter for every framework. An inventory has a card for
every source file of a project; a file that cannot be read is reported and left out.

Other commands tell an agent which files wait for notes, how far it has come and whether its notes
are complete, or play the agent for the demonstration. The programs of an installation are listed by
name, each with what its command line does.
-/

namespace CodeAtlas.Command

/-- The profile, if there is one that can be read. -/
def loadProfile (l : Layout) : Command (Option Json) := do
  if ← isPresent l.profile then
    match ← attempt (readJson l.profile) with
    | .ok v => return some v
    | .error _ => return none
  else return none

/-- What is wrong with the names in a list: each must be a directory. -/
def missingTools (directory : Path) (names : List Json) (complaint : String → String) :
    Command (List String) := do
  let named ← (names.filter Json.truthy).filterM fun n ↦ do
    return !(← isDirectory (← belowValue directory n))
  return named.map fun n ↦ complaint n.display

def checkProfile (l : Layout) : Command Unit := do
  if !(← isPresent l.profile) then
    say s!"Error: Profile not found at {l.profile.text}"
    exit 1
  let profile ← orExit "Error parsing profile: " (readJson l.profile)
  let languages ← (← profile.getD "languages" (.arr [])).elements
  let wrongLanguages ← missingTools (l.tool.below "builders") languages fun n ↦
    s!"Invalid Language: '{n}' (No builder found at builders/{n})"
  let frameworks ← (← profile.getD "frameworks" (.arr [])).elements
  let wrongFrameworks ← missingTools (l.tool.below "adapters") frameworks fun n ↦
    s!"Invalid Framework: '{n}' (No adapter found at adapters/{n})"
  let wrong := wrongLanguages ++ wrongFrameworks
  if wrong.isEmpty then say "Project Profile Validation PASSED."
  else
    say "Project Profile Validation FAILED:"
    for w in wrong do say s!"- {w}"
    exit 1

def showProfile (l : Layout) : Command Unit := do
  match ← loadProfile l with
  | some v =>
    if v.truthy then
      say "Active Project Profile:"
      say v.pretty
    else say "No active project profile found."
  | none => say "No active project profile found."
def ignoredDirectories : List String :=
  [".git", ".idea", ".venv", "venv", "__pycache__", "Backups", "reference code"]

/-- The order of a walk that meets the files of a directory before its directories. -/
def walksBefore : List String → List String → Bool
  | [a], [b] => decide (a ≤ b)
  | [_], _ => true
  | _, [_] => false
  | a :: p, b :: q => if a = b then walksBefore p q else decide (a < b)
  | [], _ => true
  | _, [] => false

def sourceFiles (root : Path) : Command (List Path) := do
  let t := (← get).tree
  let found := (t.below root).filter fun p ↦
    let names := p.parts.drop root.parts.length
    Text.endsWith p.name ".py" && !t.isDirectory p
      && !names.dropLast.any ignoredDirectories.contains
  let names := found.map fun p ↦ p.parts.drop root.parts.length
  return (names.mergeSort walksBefore).map fun ns ↦ ⟨"", ns⟩

def fileCard (p : Path) (path : String) : Command Inventory.FileCard := do
  let text ← readText p
  let bytes ← (← get).tree.bytes (← absolute p) p.text
  Inventory.FileCard.ofTree p.name path (Md5.hex bytes) (← Script.parse text)

def fileCards (root : Path) : List Path → Command (List Inventory.FileCard)
  | [] => return []
  | p :: rest => do
    if ← isPresent (root.join p) then
      say s!"Processing {p.text}..."
      match ← attempt (fileCard (root.join p) p.text) with
      | .ok card => return card :: (← fileCards root rest)
      | .error f =>
        say s!"Error processing {p.text}: {f.message}"
        fileCards root rest
    else
      say s!"Skipping {p.text} (not found)"
      fileCards root rest

def takeInventory (root : Path) : Command Unit := do
  say s!"Analyzing project at: {root.text}"
  let cards ← fileCards root (← sourceFiles root)
  let out := root.below "Spashta-CKG/code_knowledge_graph_AST_based.json"
  writeJson out <| .obj [("app_name", .str root.name),
    ("_comment_app_name", "Logical app name for scoping queries."),
    ("generated_by", "build_kg_ast_based.py v1.0"),
    ("_comment_generated_by", "Tracks tool version to manage schema drift."),
    ("files", .arr (cards.map Inventory.FileCard.document))]
  say s!"CKG generated at: {out.text}"
/-- A document that must count as true, or else the program ends with the given words. -/
def readOrSay (p : Path) (words : String) : Command Json := do
  let v ← readOrNull p
  if v.truthy then return v
  else
    say s!"Error: {p.text} not found.{words}"
    exit 1

def saveJson (p : Path) (v : Json) : Command Unit := do
  ensureDirectory p.parent
  writeJson p v

def listPending (l : Layout) (working : Path) (mode : String) : Command Unit := do
  say "Analyzing files for pending enrichment..."
  let graph ← readOrSay l.enriched ""
  let noted ← readOrNull l.byAgent
  let entries ← Graph.Notes.survey (mode == "full") graph noted
  let out := working.below "files_to_enrich.json"
  saveJson out (Graph.Notes.surveyDocument (← get).now mode entries)
  let pending := entries.countP fun e ↦ e.reason.isPending
  say "\nSummary:"
  say s!"  Total files: {entries.length}"
  say s!"  Pending enrichment: {pending}"
  say s!"  Skipped (unchanged): {entries.length - pending}"
  say s!"\nOutput saved to: {out.text}"

def showProgress (l : Layout) (working : Path) : Command Unit := do
  say "Calculating enrichment statistics..."
  let graph ← readOrNull l.enriched
  let noted ← readOrNull l.byAgent
  if !graph.truthy then
    say s!"Error: {l.enriched.text} not found."
    exit 1
  let p ← Graph.Notes.progress graph noted
  let out := working.below "enrichment_stats.json"
  saveJson out (p.document (← get).now)
  say "\nEnrichment Statistics:"
  say s!"  Nodes: {p.noted}/{p.nodes} ({p.coverage.display}%)"
  say s!"  Ambiguities: {p.resolved} resolved, {p.unresolved} unresolved"
  say s!"\nStats saved to: {out.text}"

/-- Prints a heading and remarks under it, if there are any. -/
def sayRemarks (heading mark : String) (remarks : List String) : Command Unit := do
  if !remarks.isEmpty then
    say s!"\n{heading}:"
    for r in remarks do say s!"  {mark} {r}"

def checkNotes (l : Layout) : Command Unit := do
  say "Validating LLM enrichment output..."
  let noted ← readOrSay l.byAgent " Nothing to validate."
  let r ← Graph.Notes.remarks noted
  say "\nValidation Results:"
  say s!"  Errors: {r.errors.length}"
  say s!"  Warnings: {r.warnings.length}"
  sayRemarks "Errors" "❌" r.errors
  sayRemarks "Warnings" "⚠️" r.warnings
  if r.errors.isEmpty && r.warnings.isEmpty then
    say "\n✅ Validation passed. Output is valid."

def agentUsage : Arguments.Usage :=
  { options := Arguments.helpOptions ++ [⟨"--list-pending", .nothing⟩,
      ⟨"--mode", .oneOf ["incremental", "full"]⟩, ⟨"--stats", .nothing⟩, ⟨"--validate", .nothing⟩] }

def assist (l : Layout) (working : Path) (words : List String) : Command Unit := do
  match Arguments.parse agentUsage words with
  | .error (.help _) =>
    sayHelp .agent
    exit 0
  | .error .misuse => exit 2
  | .ok v =>
    if v.isOn "--list-pending" then
      listPending l working ((v.text? "--mode").getD "incremental")
    else if v.isOn "--stats" then showProgress l working
    else if v.isOn "--validate" then checkNotes l
    else sayHelp .agent

def describeDemonstration (l : Layout) : Command Unit := do
  if ← isPresent l.enriched then
    let graph ← readJson l.enriched
    writeJson l.byAgent (← Graph.Demonstration.describe (← get).now graph)

/-- Writes prepared notes by id; all paths start at the directory where the command runs. -/
def annotateDemonstration : Command Unit := do
  let runtime := Path.ofText "runtime"
  let out := runtime.below "code_knowledge_graph_enriched_by_Agent.json"
  let graph ← readJson (runtime.below "code_knowledge_graph_enriched.json")
  let (noted, count) ← Graph.Demonstration.annotate (← get).now graph
  writeJson out noted
  say s!"Enriched graph saved to {out.text}"
  say s!"Nodes enriched: {Catalog.projectNotes.length}"
  say s!"Ambiguities processed: {count}"
open Build (Language Configuration)

def defaultOut : Language → String
  | .python => "runtime/output.json"
  | .html => "runtime/code_knowledge_graph_html.json"
  | .css => "runtime/code_knowledge_graph_css.json"

def buildBy (tool : Path) (l : Language) (words : List String) : Command Unit := do
  let options := Arguments.helpOptions ++ [⟨"--source-root", .text⟩, ⟨"--out", .text⟩]
  match Arguments.parse { options } words with
  | .error (.help _) =>
    sayHelp .builder
    exit 0
  | .error .misuse => exit 2
  | .ok v =>
    buildGraph l (Configuration.installed tool l) ((v.text? "--source-root").getD ".")
      ((v.text? "--out").getD (defaultOut l))

/-- A checker, which takes what it checks and, after a certain word, where the report goes. -/
def checkBy (usage : String) (check : String → Option String → Command Unit) : List String → Command Unit
  | [] => do
    say usage
    exit 1
  | subject :: "--out" :: out :: _ => check subject (some out)
  | subject :: _ => check subject none

def checkEquivalenceBy (l : Layout) : List String → Command Unit
  | [raw, enriched] => do
    if ← checkEquivalence l (Path.ofText raw) (Path.ofText enriched) then exit 0 else exit 1
  | _ => do
    say "Usage: python validate_ast_equivalence.py <raw_ast_path> <enriched_ast_path>"
    exit 1

inductive Program
  | build (l : Language)
  | checkGraph
  | tryBuilder
  | checkAdapter
  | tryAdapter
  | checkProfile
  | showProfile
  | assemble
  | compare
  | enrich
  | checkEquivalence
  | ask
  | assist
  | describeDemonstration
  | annotateDemonstration
  | takeInventory
deriving DecidableEq, Repr

namespace Program

def all : List Program :=
  [.build .python, .build .html, .build .css, .checkGraph, .tryBuilder, .checkAdapter, .tryAdapter,
   .checkProfile, .showProfile, .assemble, .compare, .enrich, .checkEquivalence, .ask, .assist,
   .describeDemonstration, .annotateDemonstration, .takeInventory]

def name : Program → String
  | .build l => "build-" ++ l.name
  | .checkGraph => "check-graph"
  | .tryBuilder => "try-builder"
  | .checkAdapter => "check-adapter"
  | .tryAdapter => "try-adapter"
  | .checkProfile => "check-profile"
  | .showProfile => "show-profile"
  | .assemble => "assemble"
  | .compare => "compare"
  | .enrich => "enrich"
  | .checkEquivalence => "check-equivalence"
  | .ask => "ask"
  | .assist => "assist"
  | .describeDemonstration => "describe-demonstration"
  | .annotateDemonstration => "annotate-demonstration"
  | .takeInventory => "take-inventory"

def ofName? (name : String) : Option Program := all.find? fun p ↦ p.name == name

def run (l : Layout) : Program → List String → Command Unit
  | .build language => buildBy l.tool language
  | .checkGraph =>
    checkBy ("Usage: python validate_builder_output.py <path_to_ast.json> " ++
      "[--out <report.json>]") (Command.checkGraph l.tool)
  | .tryBuilder => tryBuilderBy l
  | .checkAdapter =>
    checkBy "Usage: python validate_adapter_rules.py <framework_name> [--out <file>]"
      (Command.checkAdapter (GovernedBy.installed l.tool))
  | .tryAdapter => tryAdapterBy l
  | .checkProfile => fun _ ↦ Command.checkProfile l
  | .showProfile => fun _ ↦ Command.showProfile l
  | .assemble => fun _ ↦ Command.assemble l
  | .compare => fun _ ↦ reportChanges l
  | .enrich => fun _ ↦ Command.enrich l
  | .checkEquivalence => checkEquivalenceBy l
  | .ask => fun words ↦ do Command.ask l (← projectRoot l) words
  | .assist =>
    Command.assist l (l.home.below "runtime/enrichment_through_LLM/LLM_working_files")
  | .describeDemonstration => fun _ ↦ Command.describeDemonstration l
  | .annotateDemonstration => fun _ ↦ Command.annotateDemonstration
  | .takeInventory => fun _ ↦ Command.takeInventory l.root

end Program

end CodeAtlas.Command
