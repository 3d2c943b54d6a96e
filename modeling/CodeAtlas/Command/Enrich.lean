import CodeAtlas.Adapter.Governance
import CodeAtlas.Command.Assemble
import CodeAtlas.Graph.Enrichment
import CodeAtlas.Graph.Equivalence

/-!
# Giving roles to the nodes of a project

Checks the rule files, the framework mapping and the contracts of each adapter of the project, where
a file that cannot be read or has the wrong shape is itself a violation, and lets each of them give
roles to the nodes of the graph. A report tells what has changed since roles were last given, and a
check that giving roles has not changed the structure of the graph.
-/

namespace CodeAtlas.Command

structure GovernedBy where
  coreRules : Path
  adapters : Path
  schema : Path

def GovernedBy.installed (tool : Path) : GovernedBy :=
  { coreRules := tool.below "core/agent_rules", adapters := tool.below "adapters",
    schema := tool.below "core/software_schema" }

def ruleFiles : List String :=
  ["agent_behavior_rules.json", "code_purity_rules.json", "architecture_boundary_rules.json"]

/-- Checks one rule file; what was found before a failure is kept. -/
def checkRuleFile (core adapter : Path) (file : String) : Command (List Json) := do
  if !(← isPresent core) then
    return [.obj [("file", .str file), ("issue", "Missing Core Rule File"),
      ("details", "Core file not found in core/agent_rules/")]]
  else if !(← isPresent adapter) then return []
  else
    let failure (f : Fault) : Json := .obj [("file", .str file),
      ("issue", "JSON Parse/Read Error"), ("details", .str f.message)]
    let documents ← attempt do
      let c ← readJson core
      return (c, ← readJson adapter)
    match documents with
    | .error f => return [failure f]
    | .ok (c, a) =>
      match Adapter.missingCommentary c a file with
      | .error f => return [failure f]
      | .ok missing =>
        match Adapter.findings "" c a with
        | .error f => return missing ++ [failure f]
        | .ok found =>
          return missing ++ found.map fun d ↦ d.document.setMember "file" file

def checkPart (path : Path) (file : String) (check : Command (List Json)) : Command (List Json) := do
  if ← isPresent path then
    match ← attempt check with
    | .ok found => return found
    | .error f => return [.obj [("file", .str file), ("issue", "Error"), ("details", .str f.message)]]
  else return []

def adapterViolations (g : GovernedBy) (framework : String) : Command (List Json) := do
  let home := g.adapters.below framework
  let byRules ← ruleFiles.mapM fun file ↦ checkRuleFile (g.coreRules.below file) (home.below file) file
  let mapping := home.below "framework_mapping.json"
  let byMapping ← checkPart mapping "framework_mapping.json" do
    let nodes ← readJson (g.schema.below "nodes.json")
    Adapter.checkMapping (← readJson mapping) nodes
  let contracts := home.below "adapter_contracts.json"
  let byContracts ← checkPart contracts "adapter_contracts.json" do
    Adapter.checkContracts (← readJson contracts)
  return byRules.flatten ++ byMapping ++ byContracts

def adapterReport (framework : String) (violations : List Json) : Json :=
  .obj [("framework", .str framework), ("status", .str (if violations.isEmpty then "pass" else "fail")),
    ("violations", .arr violations), ("warnings", .arr [])]

def checkAdapter (g : GovernedBy) (framework : String) (out : Option String) : Command Unit := do
  let report := adapterReport framework (← adapterViolations g framework)
  match out.filter (· != "") with
  | none => say report.pretty
  | some out =>
    match ← attempt (writeNamed out report.pretty) with
    | .ok _ => say s!"Validation report saved to: {out}"
    | .error f =>
      say s!"Error writing report: {f.message}"
      say report.pretty
/-- A document, or null if it is not there or cannot be read. -/
def readIfPossible (p : Path) : Command Json := do
  if ← isPresent p then
    match ← attempt (readJson p) with
    | .ok v => return v
    | .error _ => return .null
  else return .null

def reportChanges (l : Layout) : Command Unit := do
  let now ← readIfPossible l.graph
  if !now.truthy then exit 1
  let before ← readIfPossible l.enriched
  writeJson l.diffReport (← Graph.Diff.report now before)

/-- A document that must be readable, or else the program ends. -/
def readOrEnd (p : Path) : Command Json := do
  match ← attempt (readJson p) with
  | .ok v => return v
  | .error _ => exit 1

def equivalenceReport (l : Layout) : Path :=
  l.runtime.below "validation_reports/ast_equivalence_report.json"

/-- Writes a report as well as it can: a failure to do so has no consequence. -/
def writeIfPossible (p : Path) (v : Json) : Command Unit := do
  if !(← isPresent p.parent) then
    let _ ← attempt (ensureDirectory p.parent)
  let _ ← attempt (writeJson p v)

def checkEquivalence (l : Layout) (raw enriched : Path) : Command Bool := do
  let rawGraph ← readOrEnd raw
  let newGraph ← readOrEnd enriched
  let violations ← Graph.Equivalence.violations rawGraph newGraph
  writeIfPossible (equivalenceReport l) (Graph.Equivalence.report violations)
  return violations.isEmpty
def programWord (v : Json) : Except Fault String :=
  match v with
  | .str s => .ok s
  | w => .error (.badOperand s!"expected str, bytes or os.PathLike object, not {w.kind.name}")

def adapterChecker (l : Layout) : Path :=
  l.tool.below "adapters/validation/validate_adapter_rules.py"

/-- Checks the adapter of a framework by the program for it; its findings do not count, only that it
runs. -/
def adapterHolds (l : Layout) (framework : Json) : Command Bool := do
  let name ← programWord framework
  let ended ← start l (adapterChecker l) (checkAdapter (GovernedBy.installed l.tool) name none)
  if ended.code = 0 then
    say s!"Governance Check PASSED: {name}"
    return true
  else
    say s!"Governance Check FAILED for {name}:\n{ended.out}\n{ended.err}"
    return false

def governanceHolds (l : Layout) (frameworks : Json) : Command Bool := do
  say "Running Governance Check (Adapter Rules)..."
  let passed ← (← frameworks.elements).mapM (adapterHolds l)
  return passed.all id

def readOrNull (p : Path) : Command Json := do
  if ← isPresent p then readJson p else return .null

def readMapping (l : Layout) (fw : Json) : Command (Option Json) := do
  let path := (← belowValue l.adapters fw).below "framework_mapping.json"
  if ← isPresent path then return some (← readJson path) else return none

def enrichBy (l : Layout) (frameworks : Json) : Command Unit := do
  let raw ← readOrNull l.graph
  let before ← readOrNull l.enriched
  let report ← readOrNull l.diffReport
  if Graph.Enrichment.isFull before report then
    say "Full Enrichment Triggered (No diff or no old version)."
  else say "Incremental Enrichment Triggered."
  let plan ← Graph.Enrichment.plan raw before report
  say s!"Nodes to Preserve: {plan.preserved.length}"
  say s!"Nodes to Enrich: {plan.fresh.length}"
  let readings ← (← frameworks.elements).mapM fun fw ↦ attempt (readMapping l fw)
  writeJson l.enriched (← Graph.Enrichment.complete raw report plan readings)
  say s!"Enrichment Complete. Graph saved to {l.enriched.text}"

def enrich (l : Layout) : Command Unit := do
  if !(← isPresent l.profile) then
    say "Error: No project profile found."
    exit 1
  if !(← isPresent l.graph) then
    say (s!"Error: {l.graph.name} not yet generated. Please generate it using " ++
      "runtime\\build_runtime_ast.py")
    exit 1
  let profile ← readJson l.profile
  let frameworks ← profile.getD "frameworks" (.arr [])
  if !(← governanceHolds l frameworks) then exit 1
  enrichBy l frameworks

end CodeAtlas.Command
