import CodeAtlas.Catalog.Installation
import CodeAtlas.Command.Program
import Std.Time.Format

/-!
# The command line

The first word names a program and the others are its own. The files below the current directory
are read into a tree, the program works on the tree, and what it has changed is written back. An
installation that is not there yet is made first.
-/

namespace CodeAtlas

open Command (Program)

def homeName : String := ".codeatlas"

/-- Reads all files below a directory of the machine into a tree. -/
partial def loadInto (t : Tree) (p : Path) : IO Tree := do
  let here ← IO.FS.realPath p.text
  let entries ← here.readDir
  entries.foldlM (fun t e ↦ do
    let q := p.below e.fileName
    if ← e.path.isDir then loadInto (t.plant q.parts .directory) q
    else return t.plant q.parts (.file (← IO.FS.readBinFile e.path))) t

def isKept (before : Tree) (spot : List String) (bytes : ByteArray) : Bool :=
  match before.entry? spot with
  | some (.file old) => old.data == bytes.data
  | _ => false

def placeText (spot : List String) : String := (Path.mk "/" spot).text

/-- Writes the difference of two trees to the machine. -/
def store (before after : Tree) : IO Unit := do
  for (spot, e) in after.entries do
    match e with
    | .directory => if (before.entry? spot).isNone then IO.FS.createDirAll (placeText spot)
    | .file bytes =>
      if !isKept before spot bytes then
        IO.FS.createDirAll (placeText spot.dropLast)
        IO.FS.writeBinFile (placeText spot) bytes
    | .danglingLink _ => pure ()
  for (spot, e) in before.entries do
    match e, after.entry? spot with
    | .file _, none => IO.FS.removeFile (placeText spot)
    | _, _ => pure ()

def layoutAt (cwd : Path) : Layout :=
  let home := cwd.below homeName
  { root := cwd, home, tool := home, adapters := home.below "adapters", interpreter := "codeatlas",
    foreign := fun program _ _ t ↦ (⟨1, "", s!"cannot run {program.text}\n"⟩, t) }

/-- The tree that programs see: the current directory with an installation. -/
def prepared (t : Tree) (l : Layout) : Tree :=
  if t.isDirectory l.home then t
  else (Catalog.install t l.home).plant l.runtime.parts .directory

def runProgram (p : Program) (words : List String) : IO UInt32 := do
  let cwd := Path.ofText (← IO.currentDir).toString
  let l := layoutAt cwd
  let found ← loadInto ((Tree.mk []).plant cwd.parts .directory) cwd
  let now := (← Std.Time.PlainDateTime.now).format "uuuu-MM-dd'T'HH:mm:ss.SSSSSS"
  let session : Session := { tree := prepared found l, cwd, now, program := p.name }
  let (code, ended) : UInt32 × Session :=
    match p.run l words session with
    | .ok _ s => (0, s)
    | .error (.exit code) s => (code.toNat.toUInt32, s)
    | .error (.fault f) s => (1, { s with printed := s.printed ++ f.message ++ "\n" })
  store found ended.tree
  IO.print ended.printed
  return code

end CodeAtlas

open CodeAtlas in
def main : List String → IO UInt32
  | name :: words =>
    match Command.Program.ofName? name with
    | some p => runProgram p words
    | none => do
      IO.println s!"unknown program: {name}"
      return 2
  | [] => do
    Command.Program.all.forM fun p ↦ IO.println p.name
    return 0
