import CodeAtlas.Measure.SelfCheck

/-!
# Rounds of measuring

Each round measures the benches once, with the statements of each file that they reach, prints what
it has measured and adds a record to a log. From the log follows when to stop: when no bench is
below its share of time, when several rounds have brought nothing, or when the number of rounds that
were allowed after the coverage was reached has been used.
-/

namespace CodeAtlas.Measure

structure FileCoverage where
  name : String
  statements : Int
  missed : Int
  percent : Double
  /-- The numbers of the lines that were not reached, as the document has them. -/
  lines : Json

/-- What a coverage document says of all files together. -/
structure Coverage where
  percent : Double
  covered : Int
  statements : Int
  files : Json
  /-- The benches that failed, each with its error. -/
  failures : Json

namespace FileCoverage

/-- The name of a file seen from the repository, cut to the widest name that the table shows. -/
def shownName (repository : Path) (file : String) : String :=
  let p := Path.ofText file
  let seen := if p.isAbsolute then (p.wayFrom repository).text else file
  String.ofList (seen.toList.take 60)

def ofJson (repository : Path) (file : String) (v : Json) : Except Fault FileCoverage := do
  let summary := (← v.get "summary").orElse (.obj [])
  return { name := shownName repository file,
           statements := ← (← summary.getD "num_statements" (.int 0)).toWhole,
           missed := ← (← summary.getD "missing_lines" (.int 0)).toWhole,
           percent := ← (← summary.getD "percent_covered" (.int 0)).toReal,
           lines := (← v.get "missing_lines").orElse (.arr []) }

/-- The first lines that were not reached, and how many there are: items of a list, or characters
of a text. -/
def firstLines (f : FileCoverage) : Except Fault (List Json × Nat) :=
  match f.lines with
  | .arr items => .ok (items.take 12, items.length)
  | .str s => .ok ((s.toList.take 12).map fun c ↦ .str (String.singleton c), s.length)
  | .obj _ => .error (.badOperand "unhashable type: 'slice'")
  | v => .error (.badOperand s!"'{v.kind.name}' object is not subscriptable")

/-- The first twelve lines that were not reached, and a mark if there are more. -/
def lineList (f : FileCoverage) : Except Fault String := do
  let (first, count) ← f.firstLines
  return String.intercalate "," (first.map Json.display) ++ (if count > 12 then "…" else "")

def before (a b : FileCoverage) : Bool :=
  a.percent.lt b.percent || (a.percent.le b.percent && decide (b.statements ≤ a.statements))

end FileCoverage

namespace Coverage

def ofJson (v : Json) : Except Fault Coverage := do
  let totals := (← v.get "totals").orElse (.obj [])
  let details := (← v.get "meta").orElse (.obj [])
  return { percent := ← (← totals.getD "percent_covered" (.int 0)).toReal,
           covered := ← (← totals.getD "covered_lines" (.int 0)).toWhole,
           statements := ← (← totals.getD "num_statements" (.int 0)).toWhole,
           files := (← v.get "files").orElse (.obj []),
           failures := (← details.get "_pti_bench_errors").orElse (.obj []) }

def rows (repository : Path) (c : Coverage) : Except Fault (List FileCoverage) := do
  let files ← (← c.files.membersBy "items").mapM fun (name, f) ↦ FileCoverage.ofJson repository name f
  return (files.mergeSort FileCoverage.before).take 120

def width (files : List FileCoverage) : Nat :=
  if files.isEmpty then 4 else files.foldl (fun w f ↦ max w f.name.length) 0

def row (width : Nat) (name : String) (statements missed : Int) (percent : Double) : String :=
  let cover := Text.atRight 4 (percent.fixed 0)
  let counts := s!"{Text.atRight 5 (intText statements)}  {Text.atRight 4 (intText missed)}"
  s!"{Text.atLeft width name}  {counts}  {cover}%"

def printTable (repository : Path) (c : Coverage) : Printed Unit := do
  let files ← c.rows repository
  let w := width files
  let rule := String.ofList (List.replicate (w + 42) '-')
  let name := Text.atLeft w "Name"
  say s!"{name}  Stmts  Miss  Cover  Missing"
  say rule
  files.forM fun f ↦ do
    let missing ← f.lineList
    say s!"{row w f.name f.statements f.missed f.percent}  {missing}"
  say rule
  say (row w "TOTAL" c.statements (c.statements - c.covered) c.percent)

/-- Prints how many benches failed, and the first eight. -/
def printFailures (c : Coverage) : Printed Unit := do
  if c.failures.truthy then
    let count ← c.failures.size
    say ""
    say s!"{count} bench error(s):"
    let failures ← c.failures.membersBy "items"
    (failures.take 8).forM fun (name, error) ↦ say s!"  {name}: {error.display}"

end Coverage
structure Settings where
  /-- The share of time that benches should spend in the repository, in percent. -/
  target : Double := Double.ofInt 50
  /-- How many rounds may follow the one that reached the coverage; zero stands for no limit. -/
  cap : Int := 0
  /-- The coverage to be reached, in percent. -/
  enough : Double := Double.ofInt 60
  /-- The shortest time that can be measured, in milliseconds. -/
  shortest : Double := Double.ofInt 1
  /-- Whether benches are asked to check themselves. -/
  checks : Bool := true

def Settings.cut (s : Settings) : Double :=
  let cut := s.target.sub (Double.ofInt 5)
  if cut.lt .zero then .zero else cut

def logLines (log : String) : List String :=
  (Text.splitLines (String.ofList (Text.unifyLines log.toList))).filter fun l ↦ Text.trim l != ""

structure History where
  /-- The first round that reached the coverage. -/
  reached : Option Nat := none
  /-- How many benches were below their share, round by round, where that was counted. -/
  counts : List Json := []

/-- A record is read after those before it. -/
def History.add (enough : Double) (h : History) (number : Nat) (line : String) : Except Fault History := do
  let record ← Json.parse line
  let reached ← match h.reached with
    | some n => pure (some n)
    | none => do
      let percent := (← record.get "coverage_pct").orElse (.int 0)
      pure (if ← percent.atLeast enough then some number else none)
  let below ← record.get "n_below_repo_time"
  return { reached, counts := if below.wholeOnly?.isSome then h.counts ++ [below] else h.counts }

/-- The history up to the first record that cannot be read, and whether all were read. -/
def History.read (enough : Double) (h : History) : (number : Nat) → List String → History × Bool
  | _, [] => (h, true)
  | number, line :: rest =>
    match h.add enough number line with
    | .ok next => next.read enough (number + 1) rest
    | .error _ => (h, false)

def lastTime (lines : List String) : Except Fault Json :=
  match lines.getLast? with
  | none => .ok (.int 0)
  | some line => do (← Json.parse line).getD "ts" (.int 0)

/-- The history that a log tells, and the time of its last record if the log can be continued. -/
def History.ofLog (enough : Double) (log : String) : History × Option Json :=
  let lines := logLines log
  match lastTime lines with
  | .error _ => ({}, none)
  | .ok time =>
    let (h, isWhole) := History.read enough {} 1 lines
    (h, if isWhole then some time else none)

structure Round where
  number : Nat
  now : Json
  seconds : Double
  benches : Nat
  coverage : Coverage
  shares : List TimeShare
  checked : List Checked

namespace Round

def timed (r : Round) : List TimeShare := r.shares.filter TimeShare.isTimed

/-- How many benches are below their share; nothing if none was timed. -/
def below? (settings : Settings) (r : Round) : Option Nat :=
  if r.timed.isEmpty then none else some (r.timed.filter (TimeShare.isBelow settings.cut)).length

def failing (r : Round) : Nat := (r.checked.filter fun c ↦ !c.verdict.isGood).length

/-- The seconds since the time of the last record; nothing is known of the first. -/
def waited (now before : Json) : Except Fault Json := do
  if before.truthy then return (← now.minus before).roundedTo 2 else return .float .zero

def record (settings : Settings) (before : Json) (r : Round) : Except Fault Json := do
  let waited ← waited r.now before
  let failures ← r.coverage.failures.size
  return .obj [("round", .int r.number), ("ts", r.now), ("wall_since_prev_s", waited),
    ("coverage_pct", .float r.coverage.percent), ("covered_lines", .int r.coverage.covered),
    ("num_statements", .int r.coverage.statements), ("n_bench_fns", .int r.benches),
    ("n_bench_errors", .int failures), ("cov_measure_s", .float (r.seconds.roundTo 3)),
    ("repo_time_pct", .obj (r.shares.map fun s ↦ (s.name, .float s.percent))),
    ("n_below_repo_time", ((r.below? settings).map fun n ↦ Json.int n).getD .null),
    ("semcheck", .obj (r.checked.map fun c ↦ (c.name, .str c.verdict.name))),
    ("n_not_self_checking", .int r.failing)]

/-- The log with the record of a round, if the log can be continued. -/
def addTo? (settings : Settings) (before : Option Json) (r : Round) (log : String) : Option String := do
  let record ← (r.record settings (← before)).toOption
  return log ++ record.compact ++ "\n"

def summary (settings : Settings) (r : Round) : String :=
  let cut := settings.cut.fixed 0
  let times := if r.shares.isEmpty then ""
    else s!", {(r.below? settings).getD 0}/{r.timed.length} below repo_time {cut}%"
  let checks := if r.checked.isEmpty then ""
    else s!", {r.failing}/{r.checked.length} not self-checking"
  let covered := r.coverage.percent.fixed 1
  let tail := s!"{times}{checks}, measured in {r.seconds.fixed 1}s]"
  s!"[round {r.number}: {r.benches} benches, {covered}% covered{tail}"

/-- The round that reached the coverage, if too many rounds have followed it. -/
def overdue? (settings : Settings) (h : History) (r : Round) : Option Nat := do
  let reached ← h.reached
  if 0 < settings.cap ∧ settings.cap ≤ (r.number : Int) - reached then some reached else none

def overdueText (settings : Settings) (r : Round) (reached : Nat) : String :=
  let percent := r.coverage.percent.fixed 0
  let enough := settings.enough.fixed 0
  s!">>> STOP: rtfb round cap reached ({settings.cap} rounds after coverage first hit {enough}%"
    ++ s!" at round {reached}). Coverage is {percent}%. Do NOT re-run this tool — write your final"
    ++ " microbench.py and end the session now. <<<"

/-- How many rounds have passed since the fewest benches were below their share, and how many
those were. -/
def stalled? (counts : List Json) : Option (Nat × Json) := do
  let values := counts.filterMap Json.wholeOnly?
  let first ← values.head?
  let best := values.foldl min first
  let place ← values.findIdx? (· = best)
  return (counts.length - 1 - place, ← counts[place]?)

/-- Why no further round is needed, given the counts of the rounds that the log has. -/
def converged? (settings : Settings) (counts : List Json) (r : Round) : Option String := do
  let below ← r.below? settings
  if !settings.enough.le r.coverage.percent then none
  else if below = 0 then some "0 below"
  else
    let (rounds, best) ← stalled? counts
    if rounds < 3 then none
    else some s!"no improvement in {rounds} rounds; best {best.display} below"

end Round
/-- What a round starts from. -/
structure Readings where
  repository : Path
  coverage : Option Child
  document : Option String
  timing : Option Child := none
  trials : Option Child := none
  changes : Option Child := none
  benches : Except Fault String := .ok ""
  log : Option String := none
  seconds : Double := .zero
  now : Json := .float .zero

/-- What has been printed, how the round ended, and the log after it. -/
structure Reported where
  lines : List String := []
  stop : Option Stop := none
  log : Option String := none

def Reported.text (r : Reported) : String :=
  r.lines.foldl (fun text line ↦ text ++ line ++ "\n") ""

/-- Whether a list starts with the head of a bench; blanks and line feeds may stand before its
bracket. -/
def opensBench (cs : List Char) : Bool :=
  match Text.afterList? "def bench_".toList cs with
  | some rest =>
    (rest.head?).any Text.isWord && ((rest.dropWhile Text.isWord).dropWhile Text.isBlank).head? == some '('
  | none => false

/-- The benches that are opened at the starts of lines, given whether a line starts here. -/
def benchesFrom : (starts : Bool) → List Char → Nat
  | _, [] => 0
  | starts, c :: rest =>
    (if starts && opensBench (c :: rest) then 1 else 0) + benchesFrom (c == '\n') rest

def benchCount (text : String) : Nat := benchesFrom true text.toList

namespace Readings

def shares (settings : Settings) (g : Readings) : List TimeShare :=
  if Double.zero.lt settings.target then (g.timing.bind TimeShare.ofChild?).getD [] else []

def changed (g : Readings) : List String := (g.changes.map Checked.changedFiles).getD []

def checked (settings : Settings) (g : Readings) : List Checked :=
  if settings.checks then
    Checked.inChanged g.changed ((g.trials.map (Checked.ofChild settings.shortest)).getD [])
  else []

/-- What a round finds, if the coverage document and the benches can be read. -/
def roundOf (settings : Settings) (g : Readings) (document : String) : Except Fault Round := do
  let coverage ← Coverage.ofJson (← Json.parse document)
  let benches := benchCount (← g.benches)
  return { number := (logLines (g.log.getD "")).length + 1, now := g.now, seconds := g.seconds,
           benches, coverage, shares := g.shares settings, checked := g.checked settings }

def printRound (settings : Settings) (g : Readings) (h : History) (counts : List Json)
    (r : Round) : Printed Unit := do
  r.coverage.printTable g.repository
  r.coverage.printFailures
  match r.overdue? settings h with
  | some reached =>
    say ""
    say (r.overdueText settings reached)
    throw (.exit 0)
  | none =>
    TimeShare.printAll settings.target settings.cut r.shares
    Checked.printAll g.changed r.checked
    say ""
    say (r.summary settings)
    match r.converged? settings counts with
    | some why =>
      say ""
      say s!">>> STOP: repo_time converged ({why}). Finalize microbench.py now. <<<"
    | none => pure ()

/-- The report of a round: its record goes into the log before anything is printed. -/
def reportRound (settings : Settings) (g : Readings) (r : Round) : Reported :=
  let earlier := g.log.getD ""
  let (h, before) := History.ofLog settings.enough earlier
  let log := r.addTo? settings before earlier
  let counts := if log.isSome then
      h.counts ++ ((r.below? settings).map fun n ↦ Json.int n).toList
    else []
  let (lines, stop) := (g.printRound settings h counts r).lines
  { lines, stop, log := log <|> g.log }

def report (settings : Settings) (g : Readings) : Reported :=
  match g.coverage, g.document with
  | none, _ => { stop := some (.fault (.noSuchFile g.repository.text)), log := g.log }
  | some child, document =>
    match child.exit, document with
    | 0, some text =>
      match g.roundOf settings text with
      | .ok r => g.reportRound settings r
      | .error f => { stop := some (.fault f), log := g.log }
    | code, _ =>
      { lines := [s!"coverage measurement failed (exit {intText code})", child.output],
        stop := some (.exit (if code = 0 then 1 else code)), log := g.log }

end Readings

end CodeAtlas.Measure
