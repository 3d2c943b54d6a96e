import CodeAtlas.Build.Scan
import CodeAtlas.Build.Sketch
import CodeAtlas.Digest.Md5
import CodeAtlas.Stylesheet.Selector

/-!
# Graphs of CSS files

Each file is a stylesheet. The mapping lists patterns; what a pattern finds becomes a node that the
stylesheet defines, or, for an import, a ticket. Media queries and animations are searched for in
the text as it stands, everything else in the text without its comments.
-/

namespace CodeAtlas.Build

open Stylesheet (Match Finder)

namespace StyleGraph

def addKnown (word : String) (rule : Json) (known : List Key) : Except Fault (List Key) := do
  if ← rule.holds word then
    let k ← (← rule.need word).key
    return if known.contains k then known else known ++ [k]
  else return known

def knownEdgesOf (mapping : Json) : Except Fault (List Key) := do
  let patterns ← (← mapping.getD "patterns" (.obj [])).membersBy "values"
  patterns.foldlM (fun known (_, rule) ↦ do
    addKnown "defines_edge" rule (← addKnown "emit_edge" rule known)) []

def outlineOf (instructions mapping : Json) (rules : EdgeRules) : Except Fault Outline := do
  let known ← knownEdgesOf mapping
  let unknownReason (edge : String) : String := s!"Edge '{edge}' not in mapping"
  return { instructions, mapping, rules, known, unknownReason }

def emitNode : Json → String → String → Json → List (String × Json) → Sketching String :=
  Sketch.emitNode "Stylesheet"

/-- The part of a match that a rule asks for by number: all of it, or the name. -/
def group (m : Match) (number : Json) : Except Fault String :=
  match number with
  | .arr _ => .error number.unhashable
  | .obj _ => .error number.unhashable
  | .int 0 => .ok (String.ofList m.found.whole)
  | .int 1 => .ok (String.ofList m.found.name)
  | .bool b => .ok (String.ofList (if b then m.found.name else m.found.whole))
  | _ => .error .badGroup

/-- A ticket for each match of a finder, if the strict rules forbid a node for it. -/
def emitForbidden (o : Outline) (strict : Json) (word kind reason : String) (finder : Finder)
    (cs : List Char) : Sketching Unit := do
  if (← (← strict.getD word (.obj [])).get "never_emit_node").truthy then
    for m in Stylesheet.findAll finder cs do
      Sketch.note o kind (.str (String.ofList m.found.whole)) reason

/-- What is told about a match: the state that it is about, if there is one. -/
def attributesOf (m : Match) : Json :=
  match Stylesheet.pseudoState? m.rest with
  | some state => .obj [("pseudo_state", .str (String.ofList state))]
  | none => .null

def definedEdge (rule : Json) : Except Fault (Option Json) := do
  if ← rule.holds "defines_edge" then return some (← rule.need "defines_edge") else return none

/-- Adds what a match names, under the rule that found it. -/
def emitMatch (o : Outline) (rule : Json) (m : Match) : Sketching Unit := do
  if (← rule.holds "emit_edge") then
    if (← rule.holds "target_group") then
      let target ← group m (← rule.need "target_group")
      Sketch.note o "import_target_unresolved" target "Imported stylesheet not proven as file"
  if (← rule.holds "emit_node") then
    if (← rule.holds "name_group") then
      let name ← group m (← rule.need "name_group")
      let type ← rule.need "emit_node"
      let id ← emitNode type name "heuristic" .null
        [("line_start", .int m.line), ("attributes", attributesOf m)]
      Sketch.linkTo o "Stylesheet" id type (definedEdge rule)

def matchesOf (pattern : Json) (cs : List Char) : Except Fault (List Match) :=
  match pattern with
  | .str p =>
    match Table.get? Stylesheet.finders p with
    | some finder => .ok (Stylesheet.findAll finder cs)
    | none => .ok []
  | _ => .error (.badOperand "first argument must be string or compiled pattern")

def applyRule (o : Outline) (cs : List Char) (rule : Json) : Sketching Unit := do
  for m in ← matchesOf (← rule.need "regex") cs do
    emitMatch o rule m

/-- Adds what a text names, and tickets for what must not be named. -/
def readText (o : Outline) (text : String) : Sketching Unit := do
  let strict ← o.instructions.getD "css_strict_rules" (.obj [])
  emitForbidden o strict "media_queries" "responsive_breakpoint" "Media Queries unmodeled"
    Stylesheet.mediaQuery text.toList
  emitForbidden o strict "keyframes" "css_animation_defined" "Animations unmodeled"
    Stylesheet.animation text.toList
  let cs := Stylesheet.stripComments text.toList
  for (_, rule) in ← (← o.mapping.getD "patterns" (.obj [])).membersBy "items" do
    applyRule o cs rule

def reader (o : Outline) : Reader where
  outline := o
  fileKind := "Stylesheet"
  details text := [("file_hash", .str (Md5.ofText text))]
  read := readText o
  entry _ f s := .obj [("type", "parse_error"), ("message", .str f.message), ("file", s.fileJson)]

/-- The graph of a list of files, with tickets numbered after those already issued. -/
def ofSources (o : Outline) (issued : Nat) (sources : List Source) : Sketch :=
  sources.foldl (reader o).add { draft := { issued } }

def chooseStylesheets (rules root : Path) : Command (Path × List Path) := do
  if ← Command.isFile root then
    if root.ending == ".css" then return (root.parent, [root]) else return (root, [])
  else if ← Command.isDirectory root then return (root, ← scan rules root "*.css")
  else return (root, [])

end StyleGraph

def shownTruth (b : Bool) : String := if b then "True" else "False"

def buildStyleGraph (c : Configuration) (sourceRoot out : String) : Command Unit := do
  let root ← Command.resolve (Path.ofText sourceRoot)
  let (instructions, mapping, edges) ← c.load
  let o ← StyleGraph.outlineOf instructions mapping (← EdgeRules.ofDocument edges)
  let present := shownTruth (← Command.isPresent root)
  let single := shownTruth (← Command.isFile root)
  Command.say s!"DEBUG: Source Root: {root.text} | Exists: {present} | Is File: {single}"
  let (directory, files) ← StyleGraph.chooseStylesheets c.rules root
  Command.say s!"Scanning {files.length} CSS files..."
  let session ← get
  let draft := (StyleGraph.ofSources o session.issued (files.map (sourceAt session.tree directory))).draft
  set { session with issued := draft.issued }
  let graph := draft.document
    [("builder", .str (Language.program .css)), ("builder_version", ← builderVersion instructions),
     ("generated_at", .str session.now)]
  match ← Command.attempt (Command.writeNamed out graph.pretty) with
  | .ok _ => Command.say s!"AST Generated: {out}"
  | .error f =>
    Command.say s!"Error saving output: {f.message}"
    Command.exit 1

end CodeAtlas.Build
