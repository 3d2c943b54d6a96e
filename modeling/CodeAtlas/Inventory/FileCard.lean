import CodeAtlas.Json.Basic
import CodeAtlas.Script.Node

/-!
# What a file says about itself

A card lists what a file imports and calls and which classes and functions it defines. What stands
inside a function is passed over; what stands inside a coroutine or a class is not. The path of a
file tells the layer of an architecture that it belongs to.
-/

namespace CodeAtlas.Inventory

inductive Layer
  | tooling
  | ui
  | application
  | infrastructure
  | unknown
deriving DecidableEq, Repr

namespace Layer

def name : Layer → String
  | .tooling => "Meta-Tooling"
  | .ui => "UI"
  | .application => "Application"
  | .infrastructure => "Infrastructure"
  | .unknown => "Unknown"

/-- What a path must hold to tell a layer; the first that fits counts. -/
def signs : List (String × Layer) :=
  [("Spashta-CKG", .tooling), ("pages", .ui), ("app.py", .ui), ("backend.py", .application),
   ("config.py", .infrastructure), ("utils.py", .infrastructure)]

/-- The layer of a path, where slashes may lean either way. -/
def ofPath (path : String) : Layer :=
  let path := Text.replace "\\" "/" path
  ((signs.find? fun s ↦ Text.occursIn s.1 path).map Prod.snd).getD .unknown

end Layer
open Script (Node)

structure FunctionCard where
  name : String
  purpose : String
deriving DecidableEq, Repr

structure ClassCard where
  name : String
  purpose : String
  methods : List FunctionCard
deriving DecidableEq, Repr

def purposeOf (n : Node) : String :=
  (n.docstring?.filter (· != "")).getD "No docstring provided"

def functionCard? (n : Node) : Option FunctionCard :=
  match n.form with
  | .function name false _ _ => some ⟨name, purposeOf n⟩
  | _ => none

/-- What a walk over a tree collects, in the order in which it meets things. -/
structure Facts where
  imports : List String := []
  calls : List String := []
  classes : List ClassCard := []
deriving DecidableEq, Repr

namespace Facts

def append (a b : Facts) : Facts :=
  ⟨a.imports ++ b.imports, a.calls ++ b.calls, a.classes ++ b.classes⟩

def ofImport (source : Option String) (names : List Script.Alias) : Facts :=
  let start := (source.filter (· != "")).map (· ++ ".")
  { imports := names.map fun a ↦ start.getD "" ++ a.name }

/-- What is called, if it has a name: a bare name, a name of a name, or the last name of anything
else. -/
def ofCallee (callee : Node) : Facts :=
  match callee with
  | .mk (.name id _) _ _ => { calls := [id] }
  | .mk (.attribute attr _) _ [.mk (.name id _) _ _] => { calls := [id ++ "." ++ attr] }
  | .mk (.attribute attr _) _ _ => { calls := [attr] }
  | _ => {}

mutual

def ofNode : Node → Facts
  | .mk form span children =>
    match form with
    | .function _ false _ _ => {}
    | .classDef name _ _ _ =>
      let n : Node := .mk form span children
      append { classes := [⟨name, purposeOf n, n.body.filterMap functionCard?⟩] } (ofNodes children)
    | .call _ => append ((children.head?.map ofCallee).getD {}) (ofNodes children)
    | .import_ names => ofImport none names
    | .importFrom source names _ => ofImport source names
    | _ => ofNodes children

def ofNodes : List Node → Facts
  | [] => {}
  | n :: rest => append (ofNode n) (ofNodes rest)

end

def steps? : Script.Form → Option Nat
  | .function _ false _ _ => none
  | .classDef .. => some 3
  | .call _ => some 3
  | _ => some 2

def ofTree (n : Node) : Except Fault Facts :=
  if Script.Walk.maxSteps < Script.Walk.reach steps? 0 n then .error (.tooDeep "")
  else .ok (ofNode n)

end Facts

def functionMembers (f : FunctionCard) : List (String × Json) :=
  [("node_type", "Function"), ("name", .str f.name), ("purpose", .str f.purpose),
   ("pure_logic", .bool false)]

def openEdges : String × Json :=
  ("edges", .obj [("calls", .arr []), ("side_effects", .bool false)])

def FunctionCard.document (f : FunctionCard) : Json := .obj (functionMembers f ++ [openEdges])

def ClassCard.document (c : ClassCard) : Json :=
  .obj [("node_type", "Class"), ("name", .str c.name), ("purpose", .str c.purpose),
    ("pure_logic", .bool true), openEdges,
    ("key_methods", .arr (c.methods.map fun f ↦ .obj (functionMembers f)))]

structure FileCard where
  name : String
  path : String
  hash : String
  facts : Facts
  functions : List FunctionCard
deriving DecidableEq, Repr

namespace FileCard

def ofTree (name path hash : String) (tree : Node) : Except Fault FileCard := do
  return { name, path, hash, facts := ← Facts.ofTree tree
           functions := tree.body.filterMap functionCard? }

def listed (names : List String) : Json :=
  .arr ((names.eraseDups.mergeSort fun a b ↦ decide (a ≤ b)).map Json.str)

def edges (c : FileCard) : Json :=
  .obj [("imports", listed c.facts.imports), ("calls", listed c.facts.calls),
    ("_comment_calls", .str ("Approximation only (Stage 1). Resolving complex chains requires " ++
      "dynamic analysis.")), ("uses_state", .arr []), ("_comment_uses_state", .str
      "Explicitly defined scope: 'global', 'session', or 'request'."),
    ("reads_from", .arr []), ("writes_to", .arr []), ("side_effects", .bool false)]

def document (c : FileCard) : Json :=
  .obj [("node_type", "File"),
    ("_comment_node_type", "Explicit typing prevents semantic guessing."),
    ("filename", .str c.name), ("path", .str c.path),
    ("_comment_path", "Absolute or relative path to allow direct file access."),
    ("file_hash", .str c.hash), ("_comment_file_hash", "MD5 checksum for incremental update detection."),
    ("analysis_confidence", "structural_only"),
    ("_comment_analysis_confidence", "Indicates if node needs AI Agent review."),
    ("layer", .str (Layer.ofPath c.path).name), ("_comment_layer", .str
      "Standardized Architecture Layer. Agent must override if incorrect."), ("framework_bound", .bool false),
    ("_comment_framework_bound", .str ("True if code is coupled to framework (e.g. " ++
      "Django/Streamlit) and hard to reuse.")),
    ("purpose", "Analyzed file"), ("why_developed", "Core project file"),
    ("responsibility_scope", "See components"), ("pure_logic", .bool false),
    ("_comment_pure_logic", .str ("True if function/file has NO side effects (IO/State) and is " ++
      "deterministic.")),
    ("public_contract", .obj [("inputs", .arr []), ("outputs", .arr []), ("guarantees", .arr [])]),
    ("edges", c.edges), ("classes", .arr (c.facts.classes.map ClassCard.document)),
    ("functions", .arr (c.functions.map FunctionCard.document))]

end FileCard

end CodeAtlas.Inventory
