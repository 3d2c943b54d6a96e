import CodeAtlas.Build.MarkupGraph
import CodeAtlas.Build.References
import CodeAtlas.Build.StyleGraph
import CodeAtlas.Graph.Conformance
import CodeAtlas.Graph.Merge

/-!
# Assembling the graph of a project

Runs the builder of each language of the project, checks what it has built against the core schema,
and merges the results. The first builder that fails, or whose graph does not conform, ends the run.
-/

namespace CodeAtlas.Command

open CodeAtlas.Graph (Conformance.check CoreSchema.edgeTypesOf)

/-- Runs a step; if it fails, the program ends with a message. -/
def orExit {α : Type} (message : String) (c : Command α) : Command α := do
  match ← attempt c with
  | .ok a => return a
  | .error f =>
    say s!"{message}{f.message}"
    exit 1

def checkGraph (tool : Path) (graph : String) (out : Option String) : Command Unit := do
  let path := Path.ofText graph
  if !(← isPresent path) then
    say s!"Error: AST file not found: {path.text}"
    exit 1
  say s!"Validating AST: {path.name}"
  let schema := tool.below "core/software_schema"
  let (nodes, edges) ← orExit "Error loading Core Schema: " do
    let nodes ← readJson (schema.below "nodes.json")
    let edges ← readJson (schema.below "edges.json")
    return (nodes, ← CoreSchema.edgeTypesOf edges)
  let document ← orExit "Error loading AST: " (readJson path)
  let report ← Conformance.check nodes edges path.name document
  let text := report.document.pretty
  match out.filter (· != "") with
  | none => say text
  | some out =>
    match ← attempt (writeNamed out text) with
    | .ok _ => say s!"Validation report saved to: {out}"
    | .error f =>
      say s!"Error writing report: {f.message}"
      say text
open Build (Language Configuration)

def buildGraph (l : Language) (c : Configuration) (sourceRoot out : String) : Command Unit :=
  match l with
  | .python => Build.buildScriptGraph c sourceRoot out
  | .html => Build.buildMarkupGraph c sourceRoot out
  | .css => Build.buildStyleGraph c sourceRoot out

def belowValue (p : Path) (v : Json) : Except Fault Path :=
  match v with
  | .str s => .ok (p.below s)
  | w => .error (.badOperand s!"unsupported operand type(s) for /: 'PosixPath' and '{w.kind.name}'")

def pathOf (v : Json) : Except Fault Path :=
  match v with
  | .str s => .ok (Path.ofText s)
  | w => .error (.badOperand s!"expected str, bytes or os.PathLike object, not {w.kind.name}")

def succeeded (words : List String) (e : Ended) : Command Bool := do
  if e.code = 0 then return true
  else
    say ("Error executing " ++ String.intercalate " " words ++ ":\n" ++ e.err)
    return false

/-- Starts a builder: that of a language known here, or any other program. -/
def startBuilder (l : Layout) (language? : Option Language) (program : Path) (sourceRoot out : String) :
    Command Ended :=
  match language? with
  | some language =>
    start l program (buildGraph language (Configuration.installed l.tool language) sourceRoot out)
  | none => startForeign l program sourceRoot out

def runBuilder (l : Layout) (language : Json) (projectRoot fragments : Path) : Command (Option Path) := do
  let name := language.display
  let program := (← belowValue (l.tool.below "builders") language).below s!"build_{name}_ast.py"
  if !(← isPresent program) then
    say s!"Warning: Builder for {name} not found at {program.text}"
    return none
  let fragment := fragments.below s!"fragment_{name}.json"
  say s!"Running Builder: {name} -> {fragment.name}"
  let ended ← startBuilder l (Language.ofName? name) program projectRoot.text fragment.text
  let words := [l.interpreter, program.text, "--source-root", projectRoot.text, "--out", fragment.text]
  if !(← succeeded words ended) then return none
  else if !(← isPresent fragment) then
    say s!"Error: Builder for {name} did not produce outputs."
    return none
  else return some fragment

def checkFragment (l : Layout) (fragment : Path) : Command Bool := do
  say s!"Validating fragment: {fragment.name}"
  let report := l.runtime.below s!"report_{fragment.stem}.json"
  let program := l.tool.below "builders/validation/validate_builder_output.py"
  let ended ← start l program (checkGraph l.tool fragment.text (some report.text))
  if !(← succeeded [l.interpreter, program.text, fragment.text, "--out", report.text] ended) then
    return false
  match ← attempt (readJson report) with
  | .error _ =>
    say "Validation report generation failed."
    return false
  | .ok document =>
    let passed := (← document.get "status").same "pass"
    if !passed then say s!"Validation FAILED for {fragment.name}:"
    removeIfPresent report
    return passed

def readFragments (paths : List Path) : Command (List Graph.Fragment) :=
  paths.mapM fun p ↦ do return ⟨p.name, ← attempt (readJson p)⟩

def mergeFragments (l : Layout) (paths : List Path) : Command Unit := do
  say "Merging and Normalizing AST Fragments..."
  let merged ← Graph.merge (← readFragments paths)
  writeJson l.graph merged
  say s!"Final Merged AST saved to: {l.graph.text}"

/-- Makes a directory in one that is there; one that is there already is fine. -/
def makeDirectory (p : Path) : Command Unit := do
  match (← get).tree.makeDirectory (← absolute p) p.text with
  | .ok tree => modify fun s ↦ { s with tree }
  | .error f => if ← isDirectory p then pure () else throw (.fault f)

def clearFragments (fragments : Path) : Command Unit := do
  for p in (← get).tree.children fragments do
    if Text.Glob.matchesName "fragment_*.json" p.name then removeFile p

def buildFragments (l : Layout) (projectRoot fragments : Path) : List Json → Command (List Path)
  | [] => return []
  | language :: rest => do
    match ← runBuilder l language projectRoot fragments with
    | none =>
      say s!"Error: Builder failed for declared language {language.display}"
      exit 1
    | some fragment =>
      if ← checkFragment l fragment then
        return fragment :: (← buildFragments l projectRoot fragments rest)
      else
        say s!"Stopping Build: Validation failed for {language.display}."
        exit 1

/-- The languages of the project and where it is, as the profile says. -/
def findProject (l : Layout) : Command (Json × Path) := do
  if !(← isPresent l.profile) then
    say "Error: No project profile found."
    exit 1
  let profile ← readJson l.profile
  let languages ← profile.getD "languages" (.arr [])
  if !(← profile.holds "project_root") then
    say "Error: 'project_root' key missing in profile.json. Cannot determine scan scope."
    exit 1
  let raw ← pathOf (← profile.need "project_root")
  let projectRoot := if raw.isAbsolute then raw else (l.root.join raw).resolve l.root
  say s!"REPO_ROOT: {l.root.text}"
  say s!"Project root (raw): {raw.text}"
  say s!"Project root (resolved): {projectRoot.text}"
  say s!"Project Context: {projectRoot.text}"
  if !(← isPresent projectRoot) then
    say s!"Error: Project root path {projectRoot.text} not found."
    exit 1
  return (languages, projectRoot)

def emptyFragments (l : Layout) : Command Unit := do
  makeDirectory l.runtime
  makeDirectory l.fragments
  clearFragments l.fragments

def buildAll (l : Layout) : Command (List Path) := do
  let (languages, projectRoot) ← findProject l
  emptyFragments l
  buildFragments l projectRoot l.fragments (← languages.elements)

def assemble (l : Layout) : Command Unit := do
  let built ← buildAll l
  if built.isEmpty then say "No valid fragments to merge." else mergeFragments l built

end CodeAtlas.Command
