import CodeAtlas.Command.Arguments
import CodeAtlas.Command.Assemble
import CodeAtlas.Command.Pages

/-!
# Trials of builders and adapters

A trial runs a builder on sample files. For a builder it then looks whether the graph covers the
builder's mapping: all kinds of nodes and edges that it promises occur, or for an edge a ticket that
the configuration accepts in its place. For an adapter it looks whether the graph shows the roles
that are expected. A fresh graph has edges only to what the builder could prove; what it could not
prove stands in tickets. So a detection rule may also be met by the expression of a ticket, and by a
part of a name.
-/

namespace CodeAtlas.Adapter

/-- A graph as a builder has left it. -/
structure Built where
  nodes : List Json
  edges : List Json
  tickets : List Json
  byId : Table Key Json

namespace Built

def ofDocument (graph : Json) : Except Fault Built := do
  let nodes ← graph.getD "nodes" (.arr [])
  let edges ← graph.getD "edges" (.arr [])
  let tickets ← graph.getD "ambiguities" (.arr [])
  let nodes ← nodes.elements
  let byId ← nodes.foldlM (fun (t : Table Key Json) n ↦ do
    return t.put (← (← n.need "id").key) n) []
  return { nodes, edges := ← edges.elements, tickets := ← tickets.elements, byId }

/-- The far ends of the edges of some kinds that stand at a node with the near end. -/
def farEnds (b : Built) (near far : String) (kinds : List String) (id : Json) : Except Fault (List Json) :=
  b.edges.filterMapM fun e ↦ do
    if (← e.need near).same id then
      let kind ← e.need "edge"
      if kinds.any fun k ↦ kind.same k then return some (← e.need far) else return none
    else return none

def targets (b : Built) := b.farEnds "from" "to"

def sources (b : Built) := b.farEnds "to" "from"

/-- The names of the nodes with some ids; an id without a node stands for itself. -/
def names (b : Built) (ids : List Json) : Except Fault (List Json) :=
  ids.mapM fun id ↦ do
    match b.byId.get? (← id.key) with
    | some n => n.need "name"
    | none => return id

/-- The expressions of the tickets of one kind that were written for a node. -/
def expressions (b : Built) (kind : String) (id : Json) : Except Fault (List Json) :=
  b.tickets.filterMapM fun a ↦ do
    if (← a.need "source_scope").same id then
      if (← a.need "kind").same kind then
        return some (.str (← a.getD "expression" "").display)
      else return none
    else return none

end Built

namespace Detection

/-- Whether a text has all parts of a dotted name, for a name that has dots. -/
def hasParts (parts : List String) (text : Json) : Except Fault Bool :=
  match parts with
  | [] => .ok true
  | part :: rest => do if ← text.holds part then hasParts rest text else return false

/-- Whether a wanted name stands in a text, as a whole or, if it is dotted, in parts. -/
def standsIn (wanted : String) (text : Json) : Except Fault Bool := do
  if ← text.holds wanted then return true
  else
    let parts := Text.splitBy "." wanted
    if parts.length > 1 then hasParts parts text else return false

/-- Whether a test holds of some item; later items are not looked at. -/
def anyHolds (test : Json → Except Fault Bool) : List Json → Except Fault Bool
  | [] => .ok false
  | v :: rest => do if ← test v then return true else anyHolds test rest

def anyStandsIn (wanted : Json) (texts : List Json) : Except Fault Bool := do
  anyHolds (fun w ↦ do
    let name ← w.strBy "split"
    anyHolds (standsIn name) texts) (← wanted.elements)

def anyIsPart (wanted : Json) (texts : List Json) : Except Fault Bool := do
  anyHolds (fun w ↦ anyHolds (fun t ↦ t.holds w) texts) (← wanted.elements)

def ruleHolds (b : Built) (rules n : Json) (rule : String) : Except Fault Bool := do
  let id ← n.get "id"
  let wanted ← rules.need rule
  match rule with
  | "inheritance_includes" =>
    let bases ← b.names (← b.targets ["extends", "inherits_from"] id)
    anyStandsIn wanted (bases ++ (← b.expressions "inheritance_target_unproven" id))
  | "file_path_contains" =>
    let definers ← b.sources ["defines", "defines_class", "defines_function"] id
    anyHolds (fun d ↦ d.holds wanted) definers
  | "function_name" => wanted.holds (← n.get "name")
  | "decorated_by" =>
    let decorators ← b.sources ["decorates"] id
    anyStandsIn wanted (decorators ++ (← b.expressions "decorator_unknown" id))
  | "used_in_calls" =>
    let called ← b.names (← b.targets ["calls", "function_call"] id)
    anyIsPart wanted (called ++ (← b.expressions "call_target_unknown" id))
  | _ => return false

/-- The detection rules, in the order in which they are tried. What a variable was assigned is not
in a graph, so that a rule on it never holds. -/
def ruleNames : List String :=
  ["inheritance_includes", "file_path_contains", "function_name", "decorated_by",
   "assigned_value", "used_in_calls"]

def allHold (b : Built) (rules n : Json) : List String → Except Fault Bool
  | [] => .ok true
  | rule :: rest => do
    if ← rules.holds rule then
      if ← ruleHolds b rules n rule then allHold b rules n rest else return false
    else allHold b rules n rest

/-- Whether a node is of the kind that a rule asks for, and all its detection rules hold. -/
def detects (b : Built) (type rules n : Json) : Except Fault Bool := do
  if (← n.get "node_type").same type then allHold b rules n ruleNames else return false

end Detection

end CodeAtlas.Adapter

namespace CodeAtlas.Build

abbrev NameSet := Table Key Json

namespace NameSet

def insert (s : NameSet) (v : Json) : Except Fault NameSet := do
  let k ← v.key
  return if Table.contains s k then s else Table.put s k v

def insertAll (s : NameSet) (vs : List Json) : Except Fault NameSet := vs.foldlM insert s

def diff (s t : NameSet) : NameSet := s.filter fun e ↦ !Table.contains t e.1

def listed (s : NameSet) : List Json :=
  (Table.values s).mergeSort fun v w ↦ decide (v.display ≤ w.display)

end NameSet

structure Promise where
  nodes : NameSet := []
  edges : NameSet := []

namespace Promise

def addNode (p : Promise) (rule : Json) (name : String) : Except Fault Promise := do
  if ← rule.holds name then
    return { p with nodes := ← p.nodes.insert (← rule.need name) }
  else return p

def addEdge (p : Promise) (rule : Json) (name : String) : Except Fault Promise := do
  if ← rule.holds name then
    return { p with edges := ← p.edges.insert (← rule.need name) }
  else return p

def addPattern (p : Promise) (rule : Json) : Except Fault Promise := do
  let p ← p.addEdge rule "emit_edge"
  let p ← p.addEdge rule "defines_edge"
  let p ← p.addNode rule "emit_node"
  p.addNode rule "target_node_type"

/-- What a mapping promises; one without patterns leaves it to the configuration. -/
def ofDocuments (mapping config : Json) : Except Fault Promise := do
  let start : Promise :=
    { nodes := ← NameSet.insert [] (← mapping.getD "file_node_type" "File") }
  let patterns ← mapping.getD "patterns" (.obj [])
  if patterns.truthy then
    (← patterns.membersBy "items").foldlM (fun p (_, rule) ↦ p.addPattern rule) start
  else
    let expected ← config.getD "manual_expectations" (.obj [])
    let edges ← (← expected.getD "edges" (.arr [])).elements
    let start := { start with edges := ← start.edges.insertAll edges }
    let nodes ← (← expected.getD "nodes" (.arr [])).elements
    return { start with nodes := ← start.nodes.insertAll nodes }

end Promise

structure Coverage where
  missingNodes : NameSet
  missingEdges : NameSet
  /-- Edges for which an accepted ticket was found. -/
  byTicket : NameSet
  nodesFound : Nat
  nodesExpected : Nat
  edgesFound : Nat
  edgesExpected : Nat
  nodeCount : Nat
  edgeCount : Nat

namespace Coverage

def isComplete (c : Coverage) : Bool := c.missingNodes.isEmpty && c.missingEdges.isEmpty

def document (c : Coverage) : Json :=
  .obj [("success", .bool c.isComplete), ("missing_nodes", .arr c.missingNodes.listed),
    ("missing_edges", .arr c.missingEdges.listed), ("strict_pass_edges", .arr c.byTicket.listed),
    ("stats", .obj [("nodes_found", .int c.nodesFound), ("nodes_expected", .int c.nodesExpected),
      ("edges_found", .int c.edgesFound), ("edges_expected", .int c.edgesExpected),
      ("node_count", .int c.nodeCount), ("edge_count", .int c.edgeCount)])]

def namesIn (graph : Json) (items name : String) : Except Fault NameSet := do
  (← (← graph.getD items (.arr [])).elements).foldlM (fun s v ↦ do NameSet.insert s (← v.need name)) []

/-- Lets an accepted ticket stand for a missing edge. -/
def acceptTicket (tickets : NameSet) (state : NameSet × NameSet) (rule : Json) :
    Except Fault (NameSet × NameSet) := do
  let edge ← rule.get "required_edge"
  let ticket ← rule.get "accepted_ambiguity"
  let k ← edge.key
  if Table.contains state.1 k then
    if Table.contains tickets (← ticket.key) then
      return (Table.erase state.1 k, ← state.2.insert edge)
    else return state
  else return state

def measure (p : Promise) (config graph : Json) : Except Fault Coverage := do
  let nodes ← namesIn graph "nodes" "node_type"
  let edges ← namesIn graph "edges" "edge"
  let tickets ← namesIn graph "ambiguities" "kind"
  let rules ← (← (← config.getD "contract_equivalences" (.obj [])).getD "rules" (.arr [])).elements
  let (missingEdges, byTicket) ← rules.foldlM (acceptTicket tickets) (p.edges.diff edges, [])
  let nodeCount ← (← graph.getD "nodes" (.arr [])).size
  let edgeCount ← (← graph.getD "edges" (.arr [])).size
  return { missingNodes := p.nodes.diff nodes, missingEdges, byTicket,
           nodesFound := nodes.length, nodesExpected := p.nodes.length,
           edgesFound := edges.length + byTicket.length, edgesExpected := p.edges.length,
           nodeCount, edgeCount }

end Coverage

end CodeAtlas.Build

namespace CodeAtlas.Command

open Build (Language)

def languageAt (l : Layout) (program : Path) : Option Language :=
  [Language.python, .html, .css].find? fun language ↦
    l.tool.below ("builders/" ++ language.name ++ "/" ++ language.program)
      == ⟨program.root, Path.collapse program.parts⟩

def resolvedBelow (base : Path) (v : Json) : Command Path := do
  resolve (← belowValue base v)

def rule : String := "------------------------------------------------------------"

inductive Outcome
  | failed (error : String)
  | built (out : Path)
deriving Repr

def tryBuilder (l : Layout) (config : Json) (base : Path) : Command Outcome := do
  let paths ← config.need "paths"
  let program ← resolvedBelow base (← paths.need "builder_script")
  let root ← resolvedBelow base (← paths.need "project_root_relative")
  let output ← config.need "output"
  let out ← resolvedBelow base (← output.need "filename")
  say s!">>> [Job 1] Running Builder ({program.name})..."
  if !(← isPresent program) then
    say s!"ERROR: Builder script not found: {program.text}"
    return .failed "Script not found"
  if (← output.getD "clean_before_run" (.bool false)).truthy then
    removeIfPresent out
  let words := [l.interpreter, program.text, "--source-root", root.text, "--out", out.text]
  say s!"DEBUG: Executing Command: {(Json.arr (words.map Json.str)).shown}"
  let ended ← startBuilder l (languageAt l program) program root.text out.text
  if ended.code = 0 then
    say "    -> Builder Execution Successful."
    say "    [Builder Output Start]"
    say ended.out
    say "    [Builder Output End]"
    return .built out
  else
    say s!"ERROR: Builder Execution Failed! (Exit Code: {ended.code})"
    say ended.err
    return .failed ended.err

inductive Verdict
  | unknown (error : String)
  | known (coverage : Build.Coverage)

def Verdict.document : Verdict → Json
  | .unknown error => .obj [("success", .bool false), ("error", .str error)]
  | .known c => c.document

def checkCoverage (config : Json) (base : Path) : Command Verdict := do
  say ">>> [Job 2] Verifying Mapping Coverage..."
  let mappingPath ← resolvedBelow base (← (← config.need "paths").need "mapping_file")
  if !(← isPresent mappingPath) then return .unknown "Mapping file missing"
  match ← attempt (readJson mappingPath) with
  | .error f => return .unknown s!"Invalid Mapping JSON: {f.message}"
  | .ok mapping =>
    let promise ← Build.Promise.ofDocuments mapping config
    let out ← resolvedBelow base (← (← config.need "output").need "filename")
    if !(← isPresent out) then return .unknown "Output file missing"
    match ← attempt (readJson out) with
    | .error _ => return .unknown "Output is not valid JSON"
    | .ok graph => return .known (← Build.Coverage.measure promise config graph)

def sampleName (config : Json) : Except Fault String := do
  return (← (← config.getD "paths" (.obj [])).getD "project_root_relative" "input_file").display

def reportCoverage (config : Json) (out : Path) (v : Verdict) : Command Unit := do
  say "=== TEST REPORT ==="
  say s!"Generated File: {out.name}"
  match v with
  | .unknown _ => throw (.fault (.missingKey (Text.shownText "stats")))
  | .known c =>
    say s!"AST Content: {c.nodeCount} Nodes, {c.edgeCount} Edges"
    say "\n[Mapping Rule Verification]"
    say s!"Nodes Covered: {c.nodesFound}/{c.nodesExpected}"
    say s!"Edges Covered: {c.edgesFound}/{c.edgesExpected}"
    if !c.byTicket.isEmpty then
      say ("  -> Contract Expectations Matched (Ambiguity Fallback): " ++ (Json.arr c.byTicket.listed).shown)
    say "\n[Interpretation Guide]"
    if c.isComplete then
      say (s!"PASS: System is Healthy. '{← sampleName config}' covers all rules, and Builder " ++
        "correctly enforced the contract.")
      say "\n>>> FINAL RESULT: PASS"
      exit 0
    else
      say "FAIL: Mapping Rules Not Covered. Two hypotheses exist:"
      say (s!"   1. [Test Data Gap]: '{← sampleName config}' is missing an example for this " ++
        "rule. (Verify this first)")
      say "   2. [Builder Bug]: The example exists, but the Builder failed to capture it."
      say ("\n" ++ rule)
      say ">>> FINAL RESULT: FAIL"
      say rule
      if !c.missingNodes.isEmpty then
        say s!"Missing Nodes: {(Json.arr c.missingNodes.listed).shown}"
      if !c.missingEdges.isEmpty then
        say s!"Missing Edges: {(Json.arr c.missingEdges.listed).shown}"
      exit 1

def configurationWord (page : HelpPage) (words : List String) : Command (Option String) := do
  match Arguments.parse { options := Arguments.helpOptions ++ [⟨"--config", .text⟩] } words with
  | .error (.help _) =>
    sayHelp page
    exit 0
  | .error .misuse => exit 2
  | .ok v => return v.text? "--config"

def tryBuilderBy (l : Layout) (words : List String) : Command Unit := do
  let named ← configurationWord .builderTrial words
  let path ← match named.filter (· != "") with
    | some name => resolve (Path.ofText name)
    | none => pure (l.tool.below "builders/tests/run_tests_config.json")
  if !(← isPresent path) then
    say s!"CRITICAL: Config file not found at {path.text}"
    exit 1
  say s!">>> Log: Loaded Configuration from {path.name}"
  let config ← readJson path
  say ("\n" ++ rule)
  match ← tryBuilder l config path.parent with
  | .failed error =>
    say s!"\n❌ CRITICAL FAILURE: Builder Crashed.\nError: {error}"
    exit 1
  | .built out =>
    say rule
    let verdict ← checkCoverage config path.parent
    say (rule ++ "\n")
    reportCoverage config out verdict

abbrev Found := Table Key (List Json)

def detectRole (b : Adapter.Built) (role type detection : Json) : Found → List Json → Command Found
  | found, [] => return found
  | found, n :: rest => do
    if ← Adapter.Detection.detects b type detection n then
      let name ← n.get "name"
      let found := Table.push found (← role.key) name
      say s!"  [MATCH] Node '{name.display}' identified as {role.display}"
      detectRole b role type detection found rest
    else detectRole b role type detection found rest

def detectRoles (b : Adapter.Built) : Found → List Json → Command Found
  | found, [] => return found
  | found, rule :: rest => do
    let role ← rule.need "semantic_role"
    let type ← rule.need "core_node"
    let detection ← rule.getD "detection_rules" (.obj [])
    detectRoles b (← detectRole b role type detection found b.nodes) rest

def reportRoles (found : Found) : (passed : Bool) → List Json → Command Bool
  | passed, [] => return passed
  | passed, role :: rest => do
    match Table.get? found (← role.key) with
    | some (name :: names) =>
      say s!"✅ Role '{role.display}': Found instances {(Json.arr (name :: names)).shown}"
      reportRoles found passed rest
    | _ =>
      say s!"❌ Role '{role.display}': NOT FOUND"
      reportRoles found false rest

def buildForAdapter (l : Layout) (paths : Json) (samples : Path) : Command Json := do
  let program ← belowValue l.tool (← paths.getD "builder_script" "builders/python/build_python_ast.py")
  if !(← isPresent program) then
    say s!"Error: Builder script not found at {program.text}"
    exit 1
  let out := l.tool.below "adapters/tests/temp_test_ast.json"
  say s!"Building AST for directory: {samples.name}..."
  let ended ← startBuilder l (languageAt l program) program samples.text out.text
  if ended.code ≠ 0 then
    say s!"Builder failed:\n{ended.err}"
    exit 1
  if !(← isPresent out) then
    say "Error: Builder did not produce output file."
    exit 1
  readJson out

def tryAdapterBy (l : Layout) (words : List String) : Command Unit := do
  match ← configurationWord .adapterTrial words with
  | none => exit 2
  | some name =>
    let path ← resolve (Path.ofText name)
    if !(← isPresent path) then
      say s!"Error: Config file not found at {path.text}"
      exit 1
    let config ← readJson path
    let title ← config.getD "name" "Unnamed"
    say s!"--- Running Adapter Test: {title.display} ---"
    let paths ← config.need "paths"
    let mappingPath ← resolvedBelow path.parent (← paths.need "mapping_file")
    if !(← isPresent mappingPath) then
      say s!"Error: Mapping file not found at {mappingPath.text}"
      exit 1
    let mapping ← readJson mappingPath
    let _ ← paths.need "dummy_files"
    let samples ← resolvedBelow path.parent (← paths.need "dummy_dir")
    let built ← Adapter.Built.ofDocument (← buildForAdapter l paths samples)
    say "\n--- Verifying Adapter Detection Rules ---"
    let rules ← (← mapping.getD "mappings" (.arr [])).elements
    let found ← detectRoles built [] rules
    say "\n--- Test Results ---"
    let expectations ← config.getD "expectations" (.obj [])
    let expected ← (← expectations.getD "roles_present" (.arr [])).elements
    if ← reportRoles found true expected then
      say "\n>>> FINAL RESULT: PASS"
      exit 0
    else
      say "\n>>> FINAL RESULT: FAIL"
      exit 1

end CodeAtlas.Command
