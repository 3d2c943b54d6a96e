import CodeAtlas.Command.Session
import CodeAtlas.Json.Access
import CodeAtlas.Text.Numeral

/-!
# Whether benches check themselves

A report is printed line by line, and a fault, or the end of the program, keeps what has been
printed before it. It tells how much of its time each bench spends in the repository itself, where a
share below zero stands for a bench that could not be timed; a document may spell its numbers as
texts. A bench is of use if its result tells that the work was done: it returns something, the same
thing each time, and not just what it was given; its time is spent in the repository and is long
enough to be measured; and its result depends on its parameters.
-/

namespace CodeAtlas.Json

/-- A whole number as one with a point; what is beyond all of those is refused. -/
def realOfInt (i : Int) : Except Fault Double :=
  let x := Double.ofInt i
  if x.isFinite then .ok x else .error (.tooLarge "int too large to convert to float")

def toReal : Json → Except Fault Double
  | .bool b => .ok (Double.ofInt (if b then 1 else 0))
  | .int i => realOfInt i
  | .float x => .ok x
  | .str s =>
    match Text.readReal? s with
    | some x => .ok x
    | none => .error (.badValue s!"could not convert string to float: {Text.shownText s}")
  | v => .error (.badOperand s!"float() argument must be a string or a real number, not '{v.kind.name}'")

/-- A value as a whole number; what follows the point is dropped. -/
def toWhole : Json → Except Fault Int
  | .bool b => .ok (if b then 1 else 0)
  | .int i => .ok i
  | .float x =>
    if x.isFinite then .ok x.truncate
    else if x.isNaN then .error (.badValue "cannot convert float NaN to integer")
    else .error (.tooLarge "cannot convert float infinity to integer")
  | .str s =>
    match Text.readInt? s with
    | some i => .ok i
    | none => .error (.badValue s!"invalid literal for int() with base 10: {Text.shownText s}")
  | v => .error (.badOperand
      s!"int() argument must be a string, a bytes-like object or a real number, not '{v.kind.name}'")

def number? : Json → Option Double
  | .bool b => some (Double.ofInt (if b then 1 else 0))
  | .int i => some (Double.ofInt i)
  | .float x => some x
  | _ => none

/-- What a value is as a whole number without a change of kind. -/
def wholeOnly? : Json → Option Int
  | .bool b => some (if b then 1 else 0)
  | .int i => some i
  | _ => none

def atLeast (v : Json) (x : Double) : Except Fault Bool :=
  match v.number? with
  | some y => .ok (x.le y)
  | none => .error (.badOperand s!"'>=' not supported between instances of '{v.kind.name}' and 'float'")

/-- The difference of two numbers, which is whole if both are. -/
def minus (v w : Json) : Except Fault Json :=
  match v.wholeOnly?, w.wholeOnly? with
  | some i, some j => .ok (.int (i - j))
  | _, _ =>
    match v.number?, w.number? with
    | some _, some _ => return .float ((← v.toReal).sub (← w.toReal))
    | _, _ => .error (.badOperand s!"unsupported operand type(s) for -: '{v.kind.name}' and '{w.kind.name}'")

def roundedTo (places : Nat) : Json → Json
  | .float x => .float (x.roundTo places)
  | .bool b => .int (if b then 1 else 0)
  | v => v

def fixed (places : Nat) (v : Json) : Except Fault String :=
  match v with
  | .str _ => .error (.badValue "Unknown format code 'f' for object of type 'str'")
  | .null | .arr _ | .obj _ =>
    .error (.badOperand s!"unsupported format string passed to {v.kind.name}.__format__")
  | w => return (← w.toReal).fixed places

end CodeAtlas.Json

namespace CodeAtlas.Text

def blanks (n : Nat) : String := String.ofList (List.replicate n ' ')

def atLeft (width : Nat) (s : String) : String := s ++ blanks (width - s.length)

def atRight (width : Nat) (s : String) : String := blanks (width - s.length) ++ s
def isLineEnd (c : Char) : Bool :=
  let n := c.toNat
  (10 ≤ n && n ≤ 13) || (28 ≤ n && n ≤ 30) || n == 0x85 || n == 0x2028 || n == 0x2029

/-- The lines of a text, given the characters of the first line that have been read; the last line
counts only if it is not empty. -/
def linesFrom : (read : List Char) → List Char → List (List Char)
  | read, [] => if read.isEmpty then [] else [read.reverse]
  | read, '\r' :: '\n' :: rest => read.reverse :: linesFrom [] rest
  | read, c :: rest =>
    if isLineEnd c then read.reverse :: linesFrom [] rest else linesFrom (c :: read) rest

def allLines (s : String) : List String := (linesFrom [] s.toList).map String.ofList

end CodeAtlas.Text

namespace CodeAtlas.Measure

abbrev Printed := EStateM Stop (List String)

def say (line : String) : Printed Unit := modify (· ++ [line])

/-- Everything that was printed, and what stopped the printing if anything did. -/
def Printed.lines (p : Printed Unit) : List String × Option Stop :=
  match p.run [] with
  | .ok _ printed => (printed, none)
  | .error stop printed => (printed, some stop)
structure Child where
  exit : Int := 0
  output : String := ""

def Child.lastDocument? (c : Child) : Option Json := do
  let line ← (Text.allLines c.output).getLast?
  (Json.parse line).toOption

structure TimeShare where
  name : String
  percent : Double
  /-- Where else the time goes, as the document has it. -/
  hot : Json := .null

namespace TimeShare

def isTimed (s : TimeShare) : Bool := Double.zero.le s.percent

def hasFailed (s : TimeShare) : Bool := s.percent.lt .zero

def isBelow (cut : Double) (s : TimeShare) : Bool := s.isTimed && s.percent.lt cut

def pairOf (v : Json) : Except Fault (Json × Json) := do
  match ← v.elements with
  | [a, b] => return (a, b)
  | found => throw (.badValue s!"expected 2 values, got {found.length}")

/-- The entries of a value that is an object, or a list of pairs of a key and a value. -/
def entriesOf (v : Json) : Except Fault (List (Json × Json)) :=
  match v with
  | .obj m => .ok (m.map fun (name, w) ↦ (.str name, w))
  | w => do
    (← w.elements).mapM fun e ↦ do
      let (a, b) ← pairOf e
      let _ ← a.key
      return (a, b)

def saidOf? (entries : List (Json × Json)) (name : String) : Option Json :=
  (entries.reverse.find? fun e ↦ e.1.same name).map Prod.snd

/-- The shares that a program has measured; none if it measured nothing. -/
def ofChild? (c : Child) : Option (List TimeShare) := do
  let v ← c.lastDocument?
  let shares ← (v.get "repo_time_pct").toOption
  let members ← ((shares.orElse (.obj [])).membersBy "items").toOption
  let hot := (do entriesOf ((← v.get "hot_ext").orElse (.obj [])) : Except Fault _)
  members.mapM fun (name, share) ↦ share.toReal.toOption.map fun x ↦
      { name, percent := x, hot := (saidOf? (hot.toOption.getD []) name).getD .null }

def hotText (s : TimeShare) : Except Fault String := do
  if s.hot.truthy then
    let places ← (← s.hot.elements).mapM fun e ↦ do
      let (share, place) ← pairOf e
      return s!"{place.display} {← share.fixed 0}%"
    return " (hot: " ++ String.intercalate " " places ++ ")"
  else return ""

def row (cut : Double) (s : TimeShare) : Except Fault String := do
  let below := s.isBelow cut
  let mark := if below then "*" else " "
  let share := if s.hasFailed then .zero else s.percent
  let tail ← if below then s.hotText else pure (if s.hasFailed then "  <error>" else "")
  return s!"  {mark} {Text.atLeft 32 s.name} {Text.atRight 5 (share.fixed 1)}%{tail}"

def printAll (target cut : Double) (shares : List TimeShare) : Printed Unit := do
  if !shares.isEmpty then
    say ""
    say s!"repo_time (target {target.fixed 0}%; * = below {cut.fixed 0}%):"
    (shares.mergeSort fun a b ↦ !b.percent.lt a.percent).forM fun s ↦ do say (← s.row cut)

end TimeShare
inductive Verdict
  | error
  | returnsNone
  | unstable
  | returnsInput
  | lowShare
  | tooFast
  | paramInvariant
  | repoModified
  | okUnparam
  | ok
deriving DecidableEq, Repr

namespace Verdict

def name : Verdict → String
  | .error => "error"
  | .returnsNone => "returns-none"
  | .unstable => "unstable"
  | .returnsInput => "returns-input"
  | .lowShare => "low-repo-time"
  | .tooFast => "too-fast"
  | .paramInvariant => "param-invariant"
  | .repoModified => "repo-modified"
  | .okUnparam => "ok-unparam"
  | .ok => "ok"

def isGood : Verdict → Bool
  | .ok | .okUnparam => true
  | _ => false

def advice : List String :=
  ["  returns-none: run() has no return — collect and return the call results",
   "  unstable: seed RNG in setup; avoid time/uuid/id in the return",
   "  returns-input: return repo output, not the parameter value",
   "  low-repo-time: <50% of run() time is in repo code — move glue to setup",
   "  param-invariant: return something derived from run()'s work, not setup",
   "  repo-modified: revert edits to repo files (git checkout -- <path>)"]

end Verdict

/-- What trial runs of a bench have shown. -/
structure Trial where
  returned : Json := "?"
  /-- Fingerprints of results of equal runs. -/
  repeated : Json := .arr []
  /-- Fingerprints of results by parameter. -/
  varied : Json := .obj []
  /-- Fingerprints of the parameters. -/
  given : Json := .arr []
  shares : List Double := []
  /-- Milliseconds in the repository. -/
  times : List Double := []

namespace Trial

def numbersOf (v : Json) (name : String) : Except Fault (List Double) := do
  let values ← ((← v.get name).orElse (.obj [])).membersBy "values"
  values.mapM fun e ↦ e.2.toReal

def ofJson (v : Json) : Except Fault Trial := do
  let shares ← numbersOf v "repo_frac"
  let _ ← numbersOf v "ext_frac"
  return { returned := (← v.get "ret_type").orElse "?",
           repeated := (← v.get "fp_stable").orElse (.arr []),
           varied := (← v.get "fp_by_param").orElse (.obj []),
           given := (← v.get "param_fps").orElse (.arr []), shares, times := ← numbersOf v "repo_tt_ms" }

def minimum? : List Double → Option Double
  | [] => none
  | x :: xs => some (xs.foldl (fun m y ↦ if y.lt m then y else m) x)

/-- The middle of some values, or the mean of the two in the middle. -/
def median? (xs : List Double) : Option Double :=
  let sorted := xs.mergeSort Double.le
  let half := xs.length / 2
  if xs.length % 2 = 1 then sorted[half]?
  else do (← sorted[half - 1]?).add (← sorted[half]?) |>.div (Double.ofInt 2)

def share? (t : Trial) : Option Double := minimum? t.shares

def time? (t : Trial) : Option Double := median? t.times

def isOne (vs : List Json) : Except Fault Bool := do
  match ← vs.mapM Json.key with
  | [] => return false
  | k :: ks => return ks.all (· = k)

/-- The first of the fingerprints of equal runs. -/
def first (t : Trial) : Except Fault Json :=
  match t.repeated with
  | .arr (v :: _) => .ok v
  | .str s =>
    match s.toList with
    | c :: _ => .ok (.str (String.singleton c))
    | [] => .error .outOfRange
  | .arr [] => .error .outOfRange
  | .obj _ => .error (.missingKey "0")
  | v => .error (.badOperand s!"'{v.kind.name}' object is not subscriptable")

/-- The verdict on a bench that returns something; the first that fits counts. -/
def verdictOnResult (shortest : Double) (t : Trial) : Except Fault Verdict := do
  if !(← isOne (← t.repeated.elements)) then return .unstable
  else if ← t.given.holds (← t.first) then return .returnsInput
  else if t.share?.any fun s ↦ s.lt (Double.ofDecimal false 5 (-1)) then return .lowShare
  else if t.time?.any fun s ↦ s.lt shortest then return .tooFast
  else if (← t.varied.size) < 2 then return .okUnparam
  else if ← isOne ((← t.varied.membersBy "values").map Prod.snd) then return .paramInvariant
  else return .ok

def verdict (shortest : Double) (t : Trial) : Except Fault Verdict := do
  let returned ← t.returned.strBy "startswith"
  if returned = "?" ∨ Text.startsWith returned "<" then return .error
  else if returned = "NoneType" then return .returnsNone
  else t.verdictOnResult shortest

end Trial

structure Checked where
  name : String
  verdict : Verdict
  trial : Trial := {}

namespace Checked

/-- The verdicts on some benches, up to the first of which the document makes no sense. -/
def ofMembers (shortest : Double) : List (String × Json) → List Checked
  | [] => []
  | (name, .obj m) :: rest =>
    match (do
      let trial ← Trial.ofJson (.obj m)
      return { name, verdict := ← trial.verdict shortest, trial } : Except Fault Checked) with
    | .ok checked => checked :: ofMembers shortest rest
    | .error _ => []
  | _ :: rest => ofMembers shortest rest

/-- The verdicts on the benches that a program has tried. -/
def ofChild (shortest : Double) (c : Child) : List Checked :=
  match (do
    let v ← c.lastDocument?
    let entries ← (v.get "semcheck").toOption
    ((entries.orElse (.obj [])).membersBy "items").toOption : Option (List (String × Json))) with
  | some members => ofMembers shortest members
  | none => []

/-- The files of the repository that a listing of changes names: each line has two marks and a
blank before the name. -/
def changedFiles (c : Child) : List String :=
  ((Text.allLines c.output).filter fun line ↦ Text.trim line != "").map fun line ↦
    String.ofList (line.toList.drop 3)

/-- No bench is judged on its own in a repository that has been changed. -/
def inChanged (files : List String) (checked : List Checked) : List Checked :=
  if files.isEmpty then checked else checked.map fun c ↦ { c with verdict := .repoModified }

def row (c : Checked) : String :=
  let mark := if c.verdict.isGood then " " else "*"
  let share := ((c.trial.share?.getD .zero).roundTo 2).mul (Double.ofInt 100)
  let time := (c.trial.time?.getD .zero).roundTo 2
  let verdict := Text.atLeft 16 c.verdict.name
  let name := Text.atLeft 32 c.name
  let kind := c.trial.returned.display
  s!"  {mark} {name} {verdict} ({kind}, repo {share.fixed 0}%) {time.fixed 1}ms"

/-- Prints the section on benches that check themselves, those that do not first. -/
def printAll (changed : List String) (checked : List Checked) : Printed Unit := do
  if !checked.isEmpty then
    if !changed.isEmpty then
      say ""
      say (s!"** repo modified ({changed.length} file(s)) — revert these; "
        ++ "only microbench.py is yours to edit:")
      (changed.take 10).forM fun file ↦ say s!"   {file}"
    let (good, bad) := checked.partition fun c ↦ c.verdict.isGood
    say ""
    say "self-check (* = fix needed):"
    Verdict.advice.forM say
    (bad ++ good).forM fun c ↦ say c.row

end Checked

end CodeAtlas.Measure
