import CodeAtlas.Json.Access
import CodeAtlas.Json.Writer

/-!
# Governance of adapters

An adapter may override values of the core rules but not their structure: it has the same keys, and
values of the same kinds, where all numbers are one kind. Its framework mapping names kinds of nodes
that the core schema knows, and its contracts use known severities.
-/

namespace CodeAtlas.Adapter

inductive Departure
  | unknownKey
  | missingKey
  | typeMismatch (expected found : Kind)
deriving DecidableEq, Repr

structure Finding where
  path : String
  departure : Departure
deriving DecidableEq, Repr

def Finding.document (f : Finding) : Json :=
  match f.departure with
  | .unknownKey => .obj [("issue", "Unknown key"), ("key", .str f.path),
      ("details", "Key does not exist in Core Rules")]
  | .missingKey => .obj [("issue", "Missing key"), ("key", .str f.path),
      ("details", "Required Core Rule key missing in Adapter")]
  | .typeMismatch expected found => .obj [("issue", "Type mismatch"), ("key", .str f.path),
      ("expected", .str expected.name), ("found", .str found.name)]

def commentary : String := "_meta"

def isNumeric : Kind → Bool
  | .bool => true
  | .int => true
  | .float => true
  | _ => false

/-- Whether a value of one kind may stand for a value of another. -/
def isCompatible (expected found : Kind) : Bool :=
  expected == found || (isNumeric expected && isNumeric found)

/-- The keys of one document that another does not have, commentary apart. -/
def keysOutside (of other : List (String × Json)) : List String :=
  (of.map Prod.fst).filter fun k ↦ k != commentary && !Table.contains other k

def keyFindings (start : String) (core adapter : List (String × Json)) : List Finding :=
  (keysOutside adapter core).map (fun k ↦ ⟨start ++ k, .unknownKey⟩) ++
    (keysOutside core adapter).map fun k ↦ ⟨start ++ k, .missingKey⟩

mutual

/-- The departures of one value from the core value under the same path. -/
def compareValues (path : String) (core adapter : Json) : List Finding :=
  match core, adapter with
  | .obj c, .obj a => keyFindings (path ++ ".") c a ++ compareShared (path ++ ".") c a
  | c, a => if isCompatible c.kind a.kind then [] else [⟨path, .typeMismatch c.kind a.kind⟩]

def compareShared (start : String) (core adapter : List (String × Json)) : List Finding :=
  match core with
  | [] => []
  | (k, c) :: rest =>
    (match Table.get? adapter k with
      | some a => if k == commentary then [] else compareValues (start ++ k) c a
      | none => []) ++ compareShared start rest adapter

end

/-- The departures of an adapter document from the core document; paths begin with the given
text. -/
def findings (start : String) (core adapter : Json) : Except Fault (List Finding) := do
  let a ← adapter.membersBy "keys"
  let c ← core.membersBy "keys"
  return keyFindings start c a ++ compareShared start c a

/-- What is wrong if the core document has commentary and the adapter has none. -/
def missingCommentary (core adapter : Json) (file : String) : Except Fault (List Json) := do
  if ← core.holds commentary then
    if ← adapter.holds commentary then return []
    else
      return [.obj [("file", .str file), ("issue", "Missing _meta"),
        ("details", "_meta block required for governance")]]
  else return []

def isAmong (names : List String) (v : Json) : Except Fault Bool := do
  match ← v.key with
  | .str s => return names.contains s
  | _ => return false

def checkRule (types : List String) (place : Nat) (rule : Json) : Except Fault (List Json) := do
  let file : String × Json := ("file", "framework_mapping.json")
  let node ← rule.get "core_node"
  let wrongNode ← if node.truthy then do pure !(← isAmong types node) else pure false
  let role ← rule.get "semantic_role"
  let wrongRole ← if role.truthy then do pure !(← isAmong types role) else pure false
  let aboutNode : List Json := if wrongNode then
    [.obj [file, ("issue", "Invalid Core Node"),
      ("key", .str s!"mappings[{place}].core_node"), ("value", node)]] else []
  let aboutRole : List Json := if wrongRole then
    [.obj [file, ("issue", "Unknown Semantic Role (Warning)"),
      ("key", .str s!"mappings[{place}].semantic_role"), ("value", role),
      ("details", "Role is not defined in core/software_schema/nodes.json")]] else []
  return aboutNode ++ aboutRole

def checkRules (types : List String) : (place : Nat) → List Json → Except Fault (List Json)
  | _, [] => .ok []
  | place, rule :: rest => do
    return (← checkRule types place rule) ++ (← checkRules types (place + 1) rest)

def checkMapping (mapping nodeSchema : Json) : Except Fault (List Json) := do
  let types := (← nodeSchema.membersBy "keys").map Prod.fst
  let rules ← (← mapping.getD "mappings" (.arr [])).elements
  checkRules types 0 rules

def severities : List String := ["info", "warning", "error"]

def checkContracts (contracts : Json) : Except Fault (List Json) := do
  let named ← (← contracts.getD "contracts" (.obj [])).membersBy "items"
  let wrong ← named.filterMapM fun (role, contract) ↦ do
    let severity ← contract.get "violation_severity"
    let isWrong ← if severity.truthy then do pure !(← isAmong severities severity) else pure false
    if isWrong then
      return some (Json.obj [("file", "adapter_contracts.json"), ("issue", "Invalid Severity"),
        ("key", .str s!"contracts['{role}'].violation_severity"), ("value", severity)])
    else return none
  return wrong

end CodeAtlas.Adapter
