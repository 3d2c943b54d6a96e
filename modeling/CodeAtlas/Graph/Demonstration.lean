import CodeAtlas.Graph.Query

/-!
# Notes for the demonstration

What an agent would write about the nodes of two small sample projects, and two ways to write it
into a graph. One goes by the names of nodes and notes everything in the demonstration; the other
goes by exact ids and also resolves tickets.
-/

namespace CodeAtlas.Catalog

def noteOf (intent summary : String) (score : Int) (tags : List Json) (isPure : Bool)
    (effects : List Json) : List (String × Json) := [
  ("intent", intent), ("summary", summary), ("complexity_score", .int score),
  ("domain_tags", .arr tags), ("pure_logic", .bool isPure), ("side_effects", .arr effects)]

def applicationNotes : List (String × List (String × Json)) := [
  ("Class:DemoModel", noteOf "Defines the core data structure for the demo application"
    "Primary domain model for demonstration" 1 ["data-model", "demo-core"] true []),
  ("Method:DemoModel::get_display_name", noteOf "Formats the model name for UI display"
    "Display name formatter" 1 ["ui-helper"] true []),
  ("Function:home_demo", noteOf "Handles the main landing page request and context loading"
    "Main dashboard view" 2 ["view", "navigation"] false ["database_read", "template_render"]),
  ("Function:api_items_demo", noteOf "API endpoint serving partial HTML for HTMX dynamic loading"
    "HTMX items endpoint" 2 ["api", "htmx", "dynamic-ui"] false ["database_read", "template_render"]),
  ("Function:initDemo", noteOf "Initializes frontend components on page load"
    "Frontend initializer" 1 ["frontend", "lifecycle"] false ["console_log"]),
  ("File:Spashta_2.0/runtime/query_spashta.py", noteOf "CLI Entry point for querying the Code Knowledge Graph"
    "Main Query Tool CLI" 4 ["cli", "tooling", "interface"] false ["file_io", "stdout"])]

def hashed (hash : String) (notes : List (String × List (String × Json))) :
    List (String × List (String × Json)) :=
  notes.map fun (id, note) ↦ (id, note ++ [("enriched_at_hash", .str hash)])

def projectNotes : List (String × List (String × Json)) :=
  hashed "fe74d81cbcb33565ef0e186c26665986" [ ("File:build_kg_ast_based.py", noteOf
      "Core AST builder script that generates the Code Knowledge Graph from Python source code"
      "AST-based CKG generator" 4 ["code-analysis", "ast", "knowledge-graph", "meta-tooling"] false
      ["file_write"]), ("build_kg_ast_based.py::calculate_file_hash", noteOf
      "Computes MD5 hash of a file for change detection"
      "File hash calculator" 1 ["hashing", "change-detection"] true []),
    ("build_kg_ast_based.py::CodeAnalyzer", noteOf
      "AST visitor that extracts code structure including imports, classes, functions"
      "AST code analyzer visitor" 4 ["ast-analysis", "code-parsing"] true []),
    ("build_kg_ast_based.py::main", noteOf
      "Entry point that orchestrates CKG generation by scanning files and building the graph"
      "Main CKG orchestrator" 3 ["orchestration", "entry-point"] false ["file_write"])] ++
  hashed "7ea922ea096d8a6d259ef2c241cdf44f" [
    ("File:sample_project/app/models.py", noteOf "Django data model definitions for the application"
      "Django models module" 1 ["data-model", "orm", "django"] true []),
    ("sample_project/app/models.py::MyModel", noteOf
      "Simple data model with a name field for demonstration purposes"
      "Demo data model" 1 ["data-model", "entity"] true [])] ++ hashed "b7edc6bfc866cbb29351456360ca47e2" [
    ("File:sample_project/app/views.py", noteOf "Django views handling HTTP requests and rendering templates"
      "Django views module" 2 ["web-views", "http", "django"] false ["database_read"]),
    ("sample_project/app/views.py::home", noteOf
      "Home page view that fetches all MyModel objects and renders them in a template"
      "Home page view" 2 ["web-view", "data-retrieval", "template-rendering"] false ["database_read"])]

end CodeAtlas.Catalog

namespace CodeAtlas.Graph.Demonstration

def lastPart (id : String) : String := ((Text.splitBy ":" id).getLast?).getD id

def isMeantFor (id : String) (n nodeId : Json) : Except Fault Bool := do
  if nodeId.same id then return true
  else if ← nodeId.holds (.str (lastPart id)) then
    return (← n.get "name").same (.str (lastPart id))
  else return false

def noteFor (n nodeId : Json) :
    List (String × List (String × Json)) → Except Fault (Option (List (String × Json)))
  | [] => .ok none
  | (id, note) :: rest => do
    if ← isMeantFor id n nodeId then return some note else noteFor n nodeId rest

def stamp (now : String) (n : Json) : Except Fault (List (String × Json)) := do
  return [("enriched_at", .str now), ("enriched_at_hash", (← n.get "hash").orElse "unknown")]

def generalNote (name : Json) : List (String × Json) :=
  [("intent", .str s!"Demo component: {name.display}"),
   ("summary", "Auto-generated demo description"), ("complexity_score", .int 1),
   ("domain_tags", .arr ["demo-generic"])]

/-- A node with its note, if it gets one. -/
def describeNode (now : String) (n : Json) : Except Fault Json := do
  let id ← n.get "id"
  match ← noteFor n id Catalog.applicationNotes with
  | some note => return n.setMember "llm_enrichment" (.obj (note ++ (← stamp now n)))
  | none =>
    if ← (← n.getD "file_path" "").holds "_demo" then
      let note := generalNote (← n.get "name")
      return n.setMember "llm_enrichment" (.obj (note ++ (← stamp now n)))
    else return n

def mapItems (g : Json) (name : String) (f : Json → Except Fault Json) : Except Fault Json := do
  let items ← (← (← g.getD name (.arr [])).elements).mapM f
  if items.isEmpty then return g else return g.setMember name (.arr items)

def describe (now : String) (g : Json) : Except Fault Json := mapItems g "nodes" (describeNode now)

def noteNode (now : String) (n : Json) : Except Fault Json := do
  match ← (← n.need "id").key with
  | .str id =>
    match Table.get? Catalog.projectNotes id with
    | some note =>
      return n.setMember "llm_enrichment" (.obj (note ++ [("enriched_at", .str now)]))
    | none => return n
  | _ => return n

def unresolved (reasoning : String) : Json :=
  .obj [("status", "unresolved"), ("confidence", .float Double.zero), ("reasoning", .str reasoning)]

def resolvedRender : Json :=
  .obj [("status", "resolved"), ("probable_target", "django.shortcuts.render"),
    ("confidence", .float (Double.ofDecimal false 95 (-2))),
    ("reasoning", "render is imported from django.shortcuts at line 1")]

def resolveTicket (a : Json) : Except Fault Json := do
  let kind ← a.getD "kind" ""
  let isRender ← if kind.same "call_target_unknown" then
      (do (← a.getD "expression" "").holds "render")
    else pure false
  if isRender then return a.setMember "llm_resolution" resolvedRender
  else if kind.same "import_module_unknown" then
    return a.setMember "llm_resolution" (unresolved "External Django framework module, not in local codebase")
  else if kind.same "mapping_violation" || kind.same "schema_violation" then
    return a.setMember "llm_resolution"
      (unresolved "Schema/mapping issue - requires builder configuration update")
  else return a

/-- The graph with notes by id, and the number of its tickets. -/
def annotate (now : String) (g : Json) : Except Fault (Json × Nat) := do
  let _ ← g.need "nodes"
  let g ← mapItems g "nodes" (noteNode now)
  let g ← mapItems g "ambiguities" resolveTicket
  let count ← (← g.getD "ambiguities" (.arr [])).size
  match ← g.need "_meta" with
  | .obj m =>
    let summary : Json := .obj [("timestamp", .str now), ("model", "gemini-2.0-flash"),
      ("nodes_enriched", .int Catalog.projectNotes.length), ("ambiguities_processed", .int count)]
    return (g.setMember "_meta" ((Json.obj m).setMember "level_2_enrichment" summary), count)
  | v => throw (.badOperand s!"'{v.kind.name}' object does not support item assignment")

end CodeAtlas.Graph.Demonstration
