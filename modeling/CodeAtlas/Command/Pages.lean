import CodeAtlas.Command.HelpPage
import CodeAtlas.Table

/-!
# The help pages of the programs
-/

namespace CodeAtlas.HelpPage

def builder : HelpPage := page [] [] [("--source-root SOURCE_ROOT", ""), ("--out OUT", "")]

def builderTrial : HelpPage :=
  page ["Spashta-CKG Unified Test Runner"] [] [("--config CONFIG", "Path to config JSON")]

def adapterTrial : HelpPage :=
  { page ["Spashta-CKG Adapter Test Runner"] [] [("--config CONFIG", "Path to test config JSON")] with
    options := ["[-h]", "--config CONFIG"] }

def agent : HelpPage :=
  page ["LLM Enrichment Helper Script for Spashta-CKG"] [] [
    ("--list-pending", "Compare hashes and list files needing enrichment"),
    ("--mode \x7bincremental,full\x7d", "Mode: 'incremental' (default) or 'full'"),
    ("--stats", "Show enrichment statistics"), ("--validate", "Validate Agent's output JSON")]

def questionNames : String :=
  "\x7bsearch,locate,read,details,impact,dependencies,call-graph,stats,list-files\x7d"

def rule : String := String.ofList (List.replicate 80 '=')

def questions : HelpPage :=
  { page [ rule, "SPASHTA CKG QUERY TOOL - AI Agent's Gateway to Code Knowledge", rule, "",
      "Query the Code Knowledge Graph to understand codebase structure, dependencies,",
      "and relationships without reading every file.", "", "QUICK START:",
      "  search     - Find code by name or attributes", "  locate     - Get file path and line numbers",
      "  read       - View actual source code", "  call-graph - See function call relationships",
      "  impact     - Who depends on this?", "", "EXAMPLES:", "  query_spashta.py search \"login\" --json",
      "  query_spashta.py call-graph \"app/views.py::login\" --json",
      "  query_spashta.py impact \"app/models.py::User\" --depth 3 --json", rule, "    "] [
      (questionNames, "Available commands"), ("  search", "Find nodes by name, ID, or attributes"),
      ("  locate", "Get file path and line numbers for a node"),
      ("  read", "Read actual source code of a node"), ("  details", "Get full JSON object of a node"),
      ("  impact", "Who depends on this? (Incoming edges)"),
      ("  dependencies", "What does this use? (Outgoing edges)"),
      ("  call-graph", "[PYTHON ONLY] Show function call relationships"),
      ("  stats", "Show graph statistics"), ("  list-files", "List all indexed source files")] [] with
    positionals := [questionNames, "..."] }

def jsonOption : String × String := ("--json", "Output pure JSON (recommended for AI agents)")

def search : HelpPage :=
  page [ "Find nodes in the CKG using text search or attribute filters. SEARCH SYNTAX:",
    "query_spashta.py search \"login\" # Name/ID contains \"login\" query_spashta.py",
    "search \"auth\" --type Function # Only functions query_spashta.py search",
    "\"decorator:login_required\" # By decorator query_spashta.py search \"tag:form\" #",
    "HTML elements by tag query_spashta.py search \"pseudo_state:hover\" # CSS",
    "pseudo-selectors"] [("query", "Search query (text or key:value)")]
    [jsonOption, ("--type TYPE", "Filter by node type (Function, Class, etc.)")]

def locate : HelpPage :=
  page [ "Get the exact location of a code element. Returns file path, line_start,",
    "line_end, and docstring (if available). EXAMPLE: query_spashta.py locate",
    "\"app/views.py::login\" --json"] [("node_id", "Exact node ID (e.g., app/views.py::login)")] [jsonOption]

def read : HelpPage :=
  page [ "Read the source code for a specific function, class, or other node. Uses",
    "line_start/line_end to extract just the relevant code snippet. EXAMPLE:",
    "query_spashta.py read \"app/views.py::login\" --json"] [("node_id", "Exact node ID")] [jsonOption]

def details : HelpPage :=
  page [ "Get complete node metadata including all attributes. EXAMPLE: query_spashta.py",
    "details \"app/views.py::login\" --json"] [("node_id", "Exact node ID")] [jsonOption]

def impact : HelpPage :=
  page [ "Analyze what code depends on a given node. USE CASE: \"If I change this, what",
    "might break?\" EXAMPLE: query_spashta.py impact \"app/models.py::User\" --depth 3",
    "--json"] [("node_id", "Node to analyze")]
    [jsonOption, ("--depth DEPTH", "How many levels deep to trace (default: 2)")]

def dependencies : HelpPage :=
  page [ "Analyze what a node depends on (imports, calls, etc.). USE CASE: \"What do I",
    "need to understand to work on this?\" EXAMPLE: query_spashta.py dependencies",
    "\"app/views.py::login\" --json"] [("node_id", "Node to analyze")]
    [jsonOption, ("--depth DEPTH", "How many levels deep to trace (default: 1)")]

def callGraph : HelpPage :=
  page [ "[PYTHON ONLY] Analyze function call chains for a Python function or method.",
    "NOTE: This command only works for Python code. For HTML/CSS relationships, use",
    "the 'dependencies' or 'impact' commands instead. Shows: - CALLS: What",
    "functions does this function call? - CALLED_BY: What functions call this",
    "function? - CALL_LINE: Exact line number where each call occurs USE CASE: \"If",
    "I change LLMService.generate(), what will break?\" EXAMPLE: query_spashta.py",
    "call-graph \"app/views.py::search_page\" --json OUTPUT: \x7b \"node_id\":",
    "\"app/views.py::search_page\", \"calls\": [ \x7b\"target\": \"...\", \"target_name\":",
    "\"...\", \"call_line\": 45\x7d ], \"called_by\": [ \x7b\"caller\": \"...\", \"caller_name\":",
    "\"...\", \"call_line\": 12\x7d ] \x7d LIMITATION: Only tracks INTERNAL calls (your code",
    "-> your code). External library calls (json.load, os.path, etc.) are NOT",
    "tracked because they are not part of the scanned codebase. Unresolved calls",
    "are logged as ambiguities, not in call-graph."]
    [("node_id", "Function or Method ID (e.g., app/views.py::search)")] [jsonOption]

def stats : HelpPage :=
  page ["Display node count, edge count, and metadata."] [] [jsonOption]

def listFiles : HelpPage :=
  page ["Get a list of all files that have been indexed in the CKG."] [] [jsonOption]

def ofQuestion : Table String HelpPage :=
  [("search", search), ("locate", locate), ("read", read), ("details", details), ("impact", impact),
   ("dependencies", dependencies), ("call-graph", callGraph), ("stats", stats), ("list-files", listFiles)]

end CodeAtlas.HelpPage
