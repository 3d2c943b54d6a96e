import CodeAtlas.Command.HelpPage
import CodeAtlas.Json.Reader
import CodeAtlas.Json.Writer
import CodeAtlas.Tree.Basic

/-!
# Commands, and where things are

A command works on a session: the tree of files, the directory it runs in, what it has printed and
how many tickets it has numbered. It ends with a value, with a fault that nobody has dealt with, or
with an exit code; the session is kept in all three cases.

An installation has a home with the project profile and the graphs, and a directory with builders,
adapters and the core schema, which may be the same. Relative project roots start at the root.
-/

namespace CodeAtlas

inductive Stop
  | fault (f : Fault)
  | exit (code : Int)
deriving DecidableEq, Repr

structure Session where
  tree : Tree
  /-- Where relative paths start. -/
  cwd : Path
  printed : String := ""
  issued : Nat := 0
  /-- The time, as it is written into documents. -/
  now : String
  /-- The name by which the program was called. -/
  program : String := ""

abbrev Command := EStateM Stop Session

instance liftFault {σ : Type} : MonadLift (Except Fault) (EStateM Stop σ) where
  monadLift
    | .ok a => pure a
    | .error f => throw (.fault f)

namespace Command

def say (line : String) : Command Unit :=
  modify fun s ↦ { s with printed := s.printed ++ line ++ "\n" }

def exit {α : Type} (code : Int) : Command α := throw (.exit code)

def sayHelp (page : HelpPage) : Command Unit := do say (page.text (← get).program)

def sayHelpOn (command : String) (page : HelpPage) : Command Unit := do
  say (page.text ((← get).program ++ " " ++ command))

/-- Runs a command and gives its fault as a value; an exit goes on. -/
def attempt {α : Type} (c : Command α) : Command (Except Fault α) := fun s ↦
  match c s with
  | .ok a s => .ok (.ok a) s
  | .error (.fault f) s => .ok (.error f) s
  | .error (.exit code) s => .error (.exit code) s

/-- Runs a command as a program of its own: what it prints is given back, and so is the way it
ended. -/
def apart (c : Command Unit) : Command (Option Stop × String) := fun s ↦
  match c { s with printed := "" } with
  | .ok _ t => .ok (none, t.printed) { t with printed := s.printed, cwd := s.cwd }
  | .error e t => .ok (some e, t.printed) { t with printed := s.printed, cwd := s.cwd }

def absolute (p : Path) : Command Path := return (← get).cwd.join p

def resolve (p : Path) : Command Path := return p.resolve (← get).cwd

/-- Asks what stands at a path; it must not be too long to be looked up. -/
def inspect (test : Tree → Path → Bool) (p : Path) : Command Bool := do
  let t := (← get).tree
  let place ← absolute p
  match t.locate place with
  | .error .tooLong => throw (.fault (.nameTooLong p.text))
  | _ => return test t place

def isFile (p : Path) : Command Bool := inspect Tree.isFile p

def isDirectory (p : Path) : Command Bool := inspect Tree.isDirectory p

def isPresent (p : Path) : Command Bool := inspect Tree.isPresent p

def readText (p : Path) : Command String := do (← get).tree.text (← absolute p) p.text

def readJson (p : Path) : Command Json := do Json.parse (← readText p)

def writeNamed (name content : String) : Command Unit := do
  if name == "" then throw (.fault (.noSuchFile ""))
  let tree ← (← get).tree.write (← absolute (Path.ofText name)) name content.toUTF8
  modify fun s ↦ { s with tree }

def writeText (p : Path) (content : String) : Command Unit := do
  let tree ← (← get).tree.write (← absolute p) p.text content.toUTF8
  modify fun s ↦ { s with tree }

def writeJson (p : Path) (v : Json) : Command Unit := writeText p v.pretty

def ensureDirectory (p : Path) : Command Unit := do
  let s ← get
  let tree ← s.tree.ensureDirectory s.cwd p
  modify fun s ↦ { s with tree }

def removeFile (p : Path) : Command Unit := do
  if ← isDirectory p then throw (.fault (.isDirectory p.text))
  let at' ← absolute p
  modify fun s ↦ { s with tree := s.tree.remove (Path.collapse at'.parts) }

def removeIfPresent (p : Path) : Command Unit := do if ← isPresent p then removeFile p

end Command
/-- How a program has ended, and what it has printed. -/
structure Ended where
  code : Int
  out : String
  err : String

structure Layout where
  root : Path
  home : Path
  tool : Path
  adapters : Path
  /-- What starts a program. -/
  interpreter : String
  /-- What a program that is no command here, such as the builder of a further language, does when
  it is given a source root and where to write: how it ends, and which files there are then. -/
  foreign : (program : Path) → (sourceRoot out : String) → Tree → Ended × Tree

namespace Layout

def profile (l : Layout) : Path := l.home.below "project/profile.json"

def runtime (l : Layout) : Path := l.home.below "runtime"

def fragments (l : Layout) : Path := l.runtime.below "builders_generated_fragments"

def graph (l : Layout) : Path := l.runtime.below "code_knowledge_graph_ast.json"

def enriched (l : Layout) : Path := l.runtime.below "code_knowledge_graph_enriched.json"

def byAgent (l : Layout) : Path := l.runtime.below "code_knowledge_graph_enriched_by_Agent.json"

def diffReport (l : Layout) : Path := l.runtime.below "diff_report.json"

end Layout

namespace Command

/-- How it ends to start a program whose file is not there. -/
def unopened (l : Layout) (program : Path) : Ended where
  code := 2
  out := ""
  err := s!"{l.interpreter}: can't open file {Text.shownText program.text}: [Errno 2] " ++
    "No such file or directory\n"

/-- Starts a program: a command, if the file that stands for it is there. -/
def start (l : Layout) (program : Path) (body : Command Unit) : Command Ended := do
  if ← isFile program then
    match ← apart body with
    | (none, out) => return ⟨0, out, ""⟩
    | (some (.exit code), out) => return ⟨code, out, ""⟩
    | (some (.fault _), out) => return ⟨1, out, ""⟩
  else return unopened l program

def startForeign (l : Layout) (program : Path) (sourceRoot out : String) : Command Ended := do
  if ← isFile program then
    let (ended, tree) := l.foreign program sourceRoot out (← get).tree
    modify fun s ↦ { s with tree }
    return ended
  else return unopened l program

end Command

end CodeAtlas
