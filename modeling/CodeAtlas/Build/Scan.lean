import CodeAtlas.Build.Draft
import CodeAtlas.Command.Session

/-!
# Languages, and which files are scanned

For each language, where its builder keeps what it is told and how the language maps to nodes and
edges. Scanned are all files of the right ending below a directory, except those with an excluded
directory anywhere in their path and those whose name fits an excluded pattern.
-/

namespace CodeAtlas.Build

inductive Language
  | python
  | html
  | css
deriving DecidableEq, Repr

namespace Language

def name : Language → String
  | .python => "python"
  | .html => "html"
  | .css => "css"

def ofName? (name : String) : Option Language :=
  [python, html, css].find? fun l ↦ l.name == name

def program (l : Language) : String := "build_" ++ l.name ++ "_ast.py"

end Language

structure Configuration where
  instructions : Path
  mapping : Path
  edges : Path
  rules : Path

namespace Configuration

def installed (tool : Path) (l : Language) : Configuration :=
  let home := tool.below ("builders/" ++ l.name)
  { instructions :=
      home.below ("builder_" ++ l.name ++ "_instructions_for_builder_code_development.json"),
    mapping := home.below (l.name ++ "_language_mapping.json"),
    edges := tool.below "core/software_schema/edges.json", rules := tool.below "builders/builder_rules.json" }

/-- Reads what a builder is told; if that fails, the program ends with a message. -/
def load (c : Configuration) : Command (Json × Json × Json) := do
  let loaded ← Command.attempt do
    let instructions ← Command.readJson c.instructions
    let mapping ← Command.readJson c.mapping
    let edges ← Command.readJson c.edges
    return (instructions, mapping, edges)
  match loaded with
  | .ok documents => return documents
  | .error f =>
    Command.say s!"Error loading config: {f.message}"
    Command.exit 1

end Configuration

def builderVersion (instructions : Json) : Except Fault Json := do
  (← instructions.getD "builder_identity" (.obj [])).getD "version" "unknown"
structure Exclusions where
  /-- Names of directories; what is no text can never be one. -/
  directories : List Json
  patterns : Json

namespace Exclusions

def byDefault : Exclusions := ⟨[".venv", "__pycache__"], .arr []⟩

/-- Adds names until one cannot be a key. -/
def addNames (names : List Json) : List Json → List Json × Bool
  | [] => (names, true)
  | n :: rest =>
    match n.key? with
    | none => (names, false)
    | some k =>
      addNames (if names.any (fun m ↦ m.key? == some k) then names else names ++ [n]) rest

/-- The exclusions that a document of builder rules names. A document of the wrong shape is passed
over, but the names read up to there stay. -/
def ofDocument (rules : Json) : Exclusions :=
  let named : Except Fault (Json × List Json) := do
    let policy ← rules.getD "scan_policy" (.obj [])
    let names ← policy.getD "exclude_dirs" (.arr [])
    return (policy, ← names.elements)
  match named with
  | .error _ => byDefault
  | .ok (policy, names) =>
    let (directories, complete) := addNames byDefault.directories names
    let patterns : Json :=
      match policy.getD "exclude_file_patterns" (.arr []) with
      | .ok patterns => if complete then patterns else .arr []
      | .error _ => .arr []
    ⟨directories, patterns⟩

def fits (name : String) (pattern : Json) : Except Fault Bool :=
  match pattern with
  | .str p => .ok (Text.Glob.matchesName p name)
  | v => .error (.badOperand s!"expected str, bytes or os.PathLike object, not {v.kind.name}")

def fitsAny (name : String) : List Json → Except Fault Bool
  | [] => .ok false
  | p :: rest => do if ← fits name p then return true else fitsAny name rest

def admits (e : Exclusions) (p : Path) : Except Fault Bool :=
  if (p.root :: p.parts).any fun part ↦ e.directories.any (·.same part) then .ok false
  else do return !(← fitsAny p.name (← e.patterns.elements))

end Exclusions

def loadExclusions (rules : Path) : Command Exclusions := do
  if ← Command.isPresent rules then
    match ← Command.attempt (Command.readJson rules) with
    | .ok document => return Exclusions.ofDocument document
    | .error _ => return Exclusions.byDefault
  else return Exclusions.byDefault

/-- The files below a directory that fit a pattern and are not excluded, in order. -/
def scan (rules root : Path) (pattern : String) : Command (List Path) := do
  let exclusions ← loadExclusions rules
  let found := ((← get).tree.below root).filter fun p ↦ Text.Glob.matchesName pattern p.name
  let kept ← found.filterM fun p ↦ (exclusions.admits p : Command Bool)
  return Path.sort kept

def sourceAt (tree : Tree) (directory p : Path) : Source :=
  { name := ((p.relativeTo? directory).getD p).text, path := p.text, text := tree.text p p.text }

/-- The files that a builder reads: a single file, or all below a directory. -/
def chooseFiles (rules root : Path) (pattern : String) : Command (Path × List Path) := do
  if ← Command.isFile root then return (root.parent, [root])
  else return (root, ← scan rules root pattern)

def writeGraph (out : Path) (graph : Json) : Command Unit := do
  Command.ensureDirectory out.parent
  Command.writeJson out graph

end CodeAtlas.Build
