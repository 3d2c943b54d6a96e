import CodeAtlas.Command.Arguments
import CodeAtlas.Command.Assemble
import CodeAtlas.Command.Pages
import CodeAtlas.Graph.Query

/-!
# Asking a graph

The commands that answer questions about the graph of a project, and the source text of a node.
-/

namespace CodeAtlas.Command

open Arguments

/-- Where the source files of the project are: what the profile says, or the root. -/
def projectRoot (l : Layout) : Command Path := do
  if ← isPresent l.profile then
    let named ← attempt do
      let raw ← (← readJson l.profile).get "project_root"
      if raw.truthy then do
        let p ← pathOf raw
        return some (if p.isAbsolute then p else (l.root.join p).resolve l.root)
      else return none
    match named with
    | .ok (some p) => return p
    | _ => return l.root
  else return l.root

/-- The graph with roles, or else the merged one. -/
def loadGraph (l : Layout) : Command Json := do
  if ← isPresent l.enriched then readJson l.enriched
  else if ← isPresent l.graph then readJson l.graph
  else exit 1

def sourceError (message : String) : List (String × Json) := [("error", message)]

/-- The lines of a text, each with its line feed. -/
def linesOf (text : String) : List String :=
  let pieces := Text.splitLines text
  let ended := pieces.dropLast.map (· ++ "\n")
  match pieces.getLast? with
  | some last => if last == "" then ended else ended ++ [last]
  | none => ended

/-- The place of a line number, counted from zero and not below it. -/
def startPlace (start : Json) : Except Fault Json :=
  match start with
  | .int i => .ok (.int (max 0 (i - 1)))
  | .bool b => .ok (.int (max 0 ((if b then 1 else 0) - 1)))
  | .float x =>
    let y := x.sub (Double.ofInt 1)
    .ok (if Double.zero.lt y then .float y else .int 0)
  | v => .error (.badOperand s!"unsupported operand type(s) for -: '{v.kind.name}' and 'int'")

def isBeyond (place : Json) (count : Nat) : Bool :=
  match place with
  | .float x => (Double.ofInt count).le x
  | v => decide ((count : Int) ≤ (v.asInt?).getD 0)

/-- The index that a value stands for in a slice; only whole numbers do. -/
def sliceIndex (v : Json) : Except Fault Int :=
  match v with
  | .int i => .ok i
  | .bool b => .ok (if b then 1 else 0)
  | _ => .error (.badOperand "slice indices must be integers or None or have an __index__ method")

/-- The lines from one place up to another, which counts from the end if it is negative. -/
def sliceLines (lines : List String) (first last : Int) : List String :=
  let last := if last < 0 then max 0 (last + lines.length) else last
  (lines.take last.toNat).drop first.toNat

def excerpt (node : Json) (lines : List String) : Except Fault (List (String × Json)) := do
  let start ← node.get "line_start"
  let last ← node.get "line_end"
  if start = .null then
    return [("content", String.join lines), ("mode", "full_file")]
  else
    let place ← startPlace start
    if isBeyond place lines.length then
      return sourceError s!"Line start {start.display} out of bounds ({lines.length} lines)"
    else
      let first ← sliceIndex place
      let stop ← sliceIndex (last.orElse (.int lines.length))
      return [("content", String.join (sliceLines lines first stop)), ("mode", "snippet"),
        ("lines", s!"{start.display}-{last.display}")]

/-- The path of the file that a node stands in, as far as the node tells. -/
def filePathOf (node : Json) : Except Fault Json := do
  let path ← node.get "file_path"
  if path.truthy then return path
  else
    let id ← node.need "id"
    if ← id.holds "::" then
      let file := Text.headBy "::" (← id.strBy "split")
      return .str ((Text.after? "File:" file).getD file)
    else return path

def sourceOf (root : Path) (g id : Json) : Command (List (String × Json)) := do
  match ← Graph.node? g id with
  | none => return sourceError "Node not found"
  | some node =>
    if !node.truthy then return sourceError "Node not found"
    let file ← filePathOf node
    if !file.truthy then return sourceError "No file path for node"
    let path ← belowValue root file
    if !(← isPresent path) then return sourceError s!"File not found at: {path.text}"
    match ← attempt (do excerpt node (linesOf (← readText path))) with
    | .ok v => return v
    | .error f => return sourceError f.message

def readSource (root : Path) (g id : Json) : Command Json := return .obj (← sourceOf root g id)

def sayItem (item : Json) : Command Unit := do
  let id ← item.get "id"
  let type ← item.get "node_type"
  say s!"  - {id.display} ({type.display})"

/-- Prints a document: as it is for programs, or in short for people. -/
def present (v : Json) (asJson : Bool) : Command Unit := do
  if asJson then say v.pretty
  else
    match v with
    | .arr items =>
      say s!"Found {items.length} items:"
      items.forM sayItem
    | .obj members =>
      if Table.contains members "content" then
        let mode ← v.get "mode"
        say s!"--- Code ({mode.display}) ---"
        say (← v.need "content").display
        say "-----------------------------"
      else say v.pretty
    | w => say w.display

def jsonOption : Opt := ⟨"--json", .nothing⟩

def questions : List (String × Usage) :=
  let shared := helpOptions ++ [jsonOption]
  let depth : Opt := ⟨"--depth", .int⟩
  [("search", { options := shared ++ [⟨"--type", .text⟩], positionals := ["query"] }),
   ("locate", { options := shared, positionals := ["node_id"] }),
   ("read", { options := shared, positionals := ["node_id"] }),
   ("details", { options := shared, positionals := ["node_id"] }),
   ("impact", { options := shared ++ [depth], positionals := ["node_id"] }),
   ("dependencies", { options := shared ++ [depth], positionals := ["node_id"] }),
   ("call-graph", { options := shared, positionals := ["node_id"] }), ("stats", { options := shared }),
   ("list-files", { options := shared })]

def location (node : Json) : Except Fault (List (String × Json)) := do
  return [("id", ← node.need "id"), ("file", ← node.getD "file_path" "N/A"),
    ("line_start", ← node.get "line_start"), ("line_end", ← node.get "line_end"),
    ("docstring", ← node.get "docstring")]

def statistics (g : Json) : Except Fault (List (String × Json)) := do
  return [("nodes", .int (← (← g.getD "nodes" (.arr [])).size)),
    ("edges", .int (← (← g.getD "edges" (.arr [])).size)), ("meta", ← g.getD "_meta" (.obj []))]

def answerTo (root : Path) (g : Json) (question : String) (values : Values) : Command Json := do
  let id : Json := .str ((values.text? "node_id").getD "")
  let depth (default : Int) : Json := .int ((values.int? "--depth").getD default)
  match question with
  | "search" =>
    let type := ((values.text? "--type").map Json.str).getD .null
    return .arr (← Graph.search g (.str ((values.text? "query").getD "")) type)
  | "locate" =>
    match ← Graph.node? g id with
    | some n => return .obj (← location n)
    | none => return .obj (sourceError "Node not found")
  | "read" => readSource root g id
  | "details" => return (← Graph.node? g id).getD (.obj (sourceError "Node not found"))
  | "impact" => Graph.trace g id "incoming" (depth 2)
  | "dependencies" => Graph.trace g id "outgoing" (depth 1)
  | "call-graph" => Graph.callGraph g id
  | "stats" => return .obj (← statistics g)
  | _ => return .arr (← Graph.filesOf g)

def ask (l : Layout) (root : Path) (words : List String) : Command Unit := do
  match parseCommand questions words with
  | .error (.help none) =>
    sayHelp .questions
    exit 0
  | .error (.help (some question)) =>
    sayHelpOn question ((HelpPage.ofQuestion.get? question).getD .questions)
    exit 0
  | .error .misuse => exit 2
  | .ok none =>
    say "No command specified. Use --help for usage information."
    exit 1
  | .ok (some (question, values)) =>
    let g ← loadGraph l
    present (← answerTo root g question values) (values.isOn "--json")

end CodeAtlas.Command
