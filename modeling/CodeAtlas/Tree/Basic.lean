import CodeAtlas.Table
import CodeAtlas.Text.Utf8

/-!
# Paths and directory trees

A path is a root, empty for relative paths, and the names below it. Empty names and single dots are
dropped when a path is read; double dots stay until the path is resolved. A tree holds files,
directories and links that lead nowhere, each under the list of names that leads to it from the
root. A path is followed name by name: every name but the last must be that of a directory.
-/

namespace CodeAtlas

structure Path where
  root : String
  parts : List String
deriving DecidableEq, Repr, Inhabited

namespace Path

/-- The characters between the slashes of a text. -/
def splitSlashes : List Char → List (List Char)
  | [] => [[]]
  | c :: rest =>
    match splitSlashes rest with
    | [] => [[c]]
    | name :: more => if c = '/' then [] :: name :: more else (c :: name) :: more

def names (text : String) : List String :=
  (splitSlashes text.toList).map String.ofList

def rootOf : List Char → String
  | '/' :: '/' :: '/' :: _ => "/"
  | '/' :: '/' :: _ => "//"
  | '/' :: _ => "/"
  | _ => ""

def ofText (text : String) : Path :=
  ⟨rootOf text.toList, (names text).filter fun n ↦ n != "" && n != "."⟩

def text (p : Path) : String :=
  if p.parts.isEmpty then (if p.root == "" then "." else p.root)
  else p.root ++ String.intercalate "/" p.parts

def isAbsolute (p : Path) : Bool := p.root != ""

/-- The second path seen from the first; an absolute one stays what it is. -/
def join (p q : Path) : Path := if q.isAbsolute then q else ⟨p.root, p.parts ++ q.parts⟩

def below (p : Path) (text : String) : Path := p.join (ofText text)

def parent (p : Path) : Path := ⟨p.root, p.parts.dropLast⟩

def name (p : Path) : String := p.parts.getLastD ""

/-- A name without its last ending, and that ending with its dot. -/
def splitEnding (name : String) : String × String :=
  let tail := name.toList.reverse.takeWhile (· != '.')
  let head := name.toList.reverse.drop (tail.length + 1)
  if tail.isEmpty ∨ head.isEmpty then (name, "")
  else (String.ofList head.reverse, "." ++ String.ofList tail.reverse)

def stem (p : Path) : String := (splitEnding p.name).1

def ending (p : Path) : String := (splitEnding p.name).2

/-- The names that lead from one path to another below it. -/
def relativeTo? (p base : Path) : Option Path :=
  if p.root = base.root ∧ base.parts.isPrefixOf p.parts then
    some ⟨"", p.parts.drop base.parts.length⟩
  else none

def sharedNames : List String → List String → Nat
  | a :: as, b :: bs => if a = b then sharedNames as bs + 1 else 0
  | _, _ => 0

/-- The way from a directory to a path, up first and then down. -/
def wayFrom (p base : Path) : Path :=
  let n := sharedNames base.parts p.parts
  ⟨"", List.replicate (base.parts.length - n) ".." ++ p.parts.drop n⟩

/-- The names without double dots; each takes away the name before it. -/
def collapse (parts : List String) : List String :=
  parts.foldl (fun done n ↦ if n = ".." then done.dropLast else done ++ [n]) []

def resolve (p cwd : Path) : Path := ⟨"/", collapse (cwd.join p).parts⟩

def le (p q : Path) : Bool := !decide (q.parts < p.parts)

def sort (ps : List Path) : List Path := ps.mergeSort le

end Path
inductive Entry
  | file (bytes : ByteArray)
  | directory
  /-- A link whose target does not exist. -/
  | danglingLink (target : String)

structure Tree where
  entries : Table (List String) Entry := []

inductive Miss
  | absent
  | notDirectory
  | tooLong
deriving DecidableEq, Repr

def Miss.fault (m : Miss) (path : String) : Fault :=
  match m with
  | .absent => .noSuchFile path
  | .notDirectory => .notDirectory path
  | .tooLong => .nameTooLong path

namespace Tree

def entry? (t : Tree) (spot : List String) : Option Entry :=
  if spot.isEmpty then some .directory else Table.get? t.entries spot

def maxName : Nat := 255

def maxPath : Nat := 4095

/-- The place that a list of names leads to; the place itself need not be taken. -/
def follow (t : Tree) : (here : List String) → (names : List String) → Except Miss (List String)
  | here, [] => .ok here
  | here, name :: rest =>
    match t.entry? here with
    | some .directory =>
      if maxName < name.utf8ByteSize then .error .tooLong
      else t.follow (if name = ".." then here.dropLast else here ++ [name]) rest
    | some (.file _) => .error .notDirectory
    | some (.danglingLink _) => .error .absent
    | none => .error .absent

def locate (t : Tree) (p : Path) : Except Miss (List String) :=
  if maxPath < p.text.utf8ByteSize then .error .tooLong else t.follow [] p.parts

def find? (t : Tree) (p : Path) : Option Entry :=
  match t.locate p with
  | .ok spot => t.entry? spot
  | .error _ => none

def isFile (t : Tree) (p : Path) : Bool :=
  match t.find? p with
  | some (.file _) => true
  | _ => false

def isDirectory (t : Tree) (p : Path) : Bool :=
  match t.find? p with
  | some .directory => true
  | _ => false

def isPresent (t : Tree) (p : Path) : Bool := t.isFile p || t.isDirectory p

/-- The bytes of a file; the text names the path in reports. -/
def bytes (t : Tree) (p : Path) (shown : String) : Except Fault ByteArray :=
  match t.locate p with
  | .error m => .error (m.fault shown)
  | .ok spot =>
    match t.entry? spot with
    | some (.file b) => .ok b
    | some .directory => .error (.isDirectory shown)
    | _ => .error (.noSuchFile shown)

def text (t : Tree) (p : Path) (shown : String) : Except Fault String := do
  Text.readable (← t.bytes p shown)

def set (t : Tree) (spot : List String) (e : Entry) : Tree := ⟨t.entries.put spot e⟩

/-- Writes a file where its directory is already there. -/
def write (t : Tree) (p : Path) (shown : String) (b : ByteArray) : Except Fault Tree :=
  match t.locate p with
  | .error m => .error (m.fault shown)
  | .ok spot =>
    match t.entry? spot with
    | some .directory => .error (.isDirectory shown)
    | _ =>
      match t.entry? spot.dropLast with
      | some .directory => .ok (t.set spot (.file b))
      | some (.file _) => .error (.notDirectory shown)
      | _ => .error (.noSuchFile shown)

def makeDirectory (t : Tree) (p : Path) (shown : String) : Except Fault Tree :=
  match t.locate p with
  | .error m => .error (m.fault shown)
  | .ok spot =>
    match t.entry? spot with
    | some _ => .error (.alreadyExists shown)
    | none =>
      match t.entry? spot.dropLast with
      | some .directory => .ok (t.set spot .directory)
      | some (.file _) => .error (.notDirectory shown)
      | _ => .error (.noSuchFile shown)

/-- Makes a directory and those above it that are missing; one that is there already is fine. -/
def makeDirectories (cwd : Path) : (steps : Nat) → Tree → Path → Except Fault Tree
  | 0, _, p => .error (.noSuchFile p.text)
  | steps + 1, t, p =>
    match t.makeDirectory (cwd.join p) p.text with
    | .ok t => .ok t
    | .error (.noSuchFile shown) =>
      if p.parts.isEmpty then .error (.noSuchFile shown)
      else
        match makeDirectories cwd steps t p.parent with
        | .error f => .error f
        | .ok t =>
          match t.makeDirectory (cwd.join p) p.text with
          | .ok t => .ok t
          | .error f => if t.isDirectory (cwd.join p) then .ok t else .error f
    | .error f => if t.isDirectory (cwd.join p) then .ok t else .error f

def ensureDirectory (cwd : Path) (t : Tree) (p : Path) : Except Fault Tree :=
  makeDirectories cwd (p.parts.length + 1) t p

def remove (t : Tree) (spot : List String) : Tree :=
  ⟨t.entries.filter fun e ↦ !spot.isPrefixOf e.1⟩

/-- Puts an entry at a place, with the directories above it. -/
def plant (t : Tree) (spot : List String) (e : Entry) : Tree :=
  let above := (List.range (spot.length - 1)).map fun n ↦ spot.take (n + 1)
  let housed := above.foldl (fun (t : Tree) d ↦
    match t.entry? d with
    | some .directory => t
    | _ => t.set d .directory) t
  housed.set spot e

def below (t : Tree) (p : Path) : List Path :=
  match t.locate p with
  | .error _ => []
  | .ok spot =>
    match t.entry? spot with
    | some .directory =>
      (t.entries.filter fun e ↦ spot.isPrefixOf e.1 && spot.length < e.1.length).map fun e ↦
        ⟨p.root, p.parts ++ e.1.drop spot.length⟩
    | _ => []

def children (t : Tree) (p : Path) : List Path :=
  (t.below p).filter fun q ↦ q.parts.length == p.parts.length + 1

end Tree

end CodeAtlas
