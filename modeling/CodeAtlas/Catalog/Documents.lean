import CodeAtlas.Json.Basic

/-!
# Documents of an installation

The kinds of nodes and edges that every graph is made of; for each language what its builder is told
and how the language maps to them; and for each framework the roles that it gives to nodes, and how
each role is recognised.
-/

namespace CodeAtlas.Catalog

def kindOf (description : String) (languages : List Json) : Json :=
  .obj [("description", description), ("languages", .arr languages)]

def coreNodes : Json := .obj [ ("_meta", .obj [ ("version", "1.3"),
    ("principle", "Superset ontology defining potential nodes; absence is not an error.")]),
  ("Call", kindOf "Invocation of a function or method" ["any"]),
  ("File", kindOf "Physical source file on disk" ["python", "html", "css", "js", "java", "php"]),
  ("Module", kindOf "Logical grouping inside a runtime" ["python", "js"]),
  ("Package", kindOf "Namespace-level grouping" ["java", "php"]),
  ("Class", kindOf "Object-oriented type" ["python", "java", "php", "js"]),
  ("Interface", kindOf "Behavioral contract" ["java", "php"]),
  ("Trait", kindOf "Horizontal code reuse unit" ["php"]),
  ("Enum", kindOf "Fixed value set" ["java", "python"]),
  ("Decorator", kindOf "Behavior-modifying annotation on functions or classes" ["python"]),
  ("Function", kindOf "Callable unit of logic" ["python", "js", "php"]),
  ("Method", kindOf "Class-bound function" ["python", "java", "php", "js"]),
  ("Variable", kindOf "Named state or configuration" ["python", "js", "php", "java"]), ("Route", .obj [
    ("description", "HTTP endpoint"), ("languages", .arr ["python", "java", "php", "js"]),
    ("framework_bound", .bool true)]), ("Template", kindOf "Renderable UI document" ["html"]),
  ("Fragment", kindOf "Partial template (AJAX / HTMX swap)" ["html"]),
  ("Component", kindOf "UI-bound logical unit" ["js"]), ("Hook", kindOf "Lifecycle or state hook" ["js"]),
  ("Stylesheet", kindOf "CSS or Style file" ["css"]),
  ("StyleClass", kindOf "CSS Class selector definition" ["css"]),
  ("StyleID", kindOf "CSS ID selector definition" ["css"]),
  ("StyleElement", kindOf "CSS Element selector definition" ["css"]), ("StaticAsset", .obj [
    ("description", "Non-executable resource"), ("types", .arr ["css", "image", "font", "js"])]),
  ("Event", kindOf "UI or runtime event" ["js", "html"]),
  ("DataModel", kindOf "Persistent data representation" ["python", "java", "php"]),
  ("Config", kindOf "Configuration or environment definition" ["any"]),
  ("APIContract", kindOf "Request/response interface contract" ["any"]),
  ("Assign", kindOf "Variable assignment or binding" ["any"]),
  ("View", kindOf "Logic handling a user interface or API request" ["python", "js", "php", "java"]),
  ("Router", kindOf "Routing configuration or logic" ["python", "js", "php"]),
  ("Form", kindOf "User input validation contract" ["python", "php", "js"]),
  ("Serializer", kindOf "Data transformation contract" ["python", "js"]),
  ("Admin", kindOf "Administrative interface logic" ["python", "php"]),
  ("Middleware", kindOf "Request/Response reference pipeline" ["python", "js", "php"]),
  ("Signal", kindOf "Event handler or producer" ["python", "js"]),
  ("Dependency", kindOf "injected dependency or service" ["python", "java"])]

def joins (sources targets : List Json) (more : List (String × Json) := []) : Json :=
  .obj (("from", .arr sources) :: ("to", .arr targets) :: more)

/-- The kinds of edges, by category, with the kinds of nodes that they join. -/
def coreEdges : Json := .obj [
  ("_meta", .obj [("logic", "Separates syntax-level facts from framework-level assumptions.")]),
  ("direct_structural", .obj [ ("imports", joins ["File", "Module", "Stylesheet"]
      ["Module", "Package", "Stylesheet", "Class", "Function", "Variable", "File"]),
    ("defines", joins ["File", "Stylesheet"] [
      "Class", "Function", "Interface", "Enum", "Route", "Trait", "Component", "Hook", "StyleClass",
      "StyleID", "StyleElement"]), ("contains_member", joins ["Class", "Trait"] ["Method", "Variable"]
      [("meaning", "Defines internal object structure")]), ("extends", joins ["Class"] ["Class"]),
    ("implements_interface", joins ["Class"] ["Interface"]), ("uses_trait", joins ["Class"] ["Trait"]),
    ("calls", joins ["Function", "Method", "Hook", "File"] ["Function", "Method"]),
    ("registers_event_handler", joins ["Function", "Method", "Hook", "File"] ["Event"]),
    ("throws_exception", joins ["Function", "Method"] ["Class"]
      [("meaning", "Declares or raises an exception type")]),
    ("reads_from", joins ["Function", "Method"] ["Variable", "DataModel", "File"]
      [("meaning", "Reads state or data")]),
    ("writes_to", joins ["Function", "Method"] ["Variable", "DataModel"]
      [("meaning", "Mutates state or data")])]), ("reference_symbolic", .obj [
    ("decorates", joins ["Function", "Class"] ["Function", "Class"]),
    ("renders_template", joins ["Route", "Function"] ["Template", "Fragment"]),
    ("calls_api", joins ["Function", "Template", "Component"] ["Route"]),
    ("submits_form", joins ["Template"] ["Route"]),
    ("links_static_asset", joins ["Template"] ["StaticAsset"]),
    ("targets_element", joins ["StaticAsset", "Template"] ["Template", "StyleID", "StyleClass"]
      [("meaning", "CSS selector targets HTML elements")]),
    ("triggers_event", joins ["Template", "Fragment"] ["Event"]),
    ("expects_contract", joins ["Route", "Function"] ["APIContract"])])]
def flags (names : List String) : List (String × Json) := names.map (·, .bool true)

/-- What all builders have in common; the scan policy names what is left out. -/
def builderRules : Json := .obj [ ("_meta", .obj [ ("version", "1.2"), ("scope", "language_agnostic"),
    ("principle", "Defines builder behavior and fallback policy; never defines syntax meaning.")]),
  ("general_behavior", .obj (flags [
    "emit_only_observed_nodes", "do_not_infer_semantics", "fail_on_schema_mismatch", "allow_partial_graph"])),
  ("node_emission_policy", .obj (flags [
    "emit_on_detection", "skip_unknown_node_types", "mark_heuristic_nodes"])),
  ("edge_emission_policy", .obj (flags [
    "emit_only_if_mapping_exists", "skip_unmapped_edges", "preserve_edge_type"])),
  ("symbolic_reference_policy", .obj (flags [
    "allow_unresolved_targets", "emit_edge_without_target_if_dynamic", "mark_symbolic_edges"])),
  ("heuristic_policy", .obj [ ("allow_heuristics", .bool true), ("heuristic_confidence_label", "heuristic"),
    ("do_not_upgrade_heuristic_to_fact", .bool true)]), ("recursion_depth_policy", .obj [
    ("limit_nested_expressions", .bool true), ("max_depth", .int 10), ("on_exceed", "stop_descend_and_log")]),
  ("ambiguity_handling", .obj [
    ("emit_resolution_request", .bool true), ("ticket_type", "AMBIGUOUS_REFERENCE"), ("priority", "medium")]),
  ("error_handling", .obj [ ("on_parse_error", "skip_file"), ("on_mapping_error", "fail_builder"),
    ("on_schema_violation", "fail_builder")]), ("logging", .obj (flags [
    "log_unmapped_syntax", "log_heuristic_usage", "log_skipped_edges", "log_recursion_limit_hits",
    "log_ambiguity_tickets"])), ("scan_policy", .obj [ ("exclude_dirs", .arr [
      "node_modules", ".git", "dist", "build", "__pycache__", "venv", ".env", "_archive"]),
    ("exclude_file_patterns", .arr ["*.min.html", "test_output*"])])]

def identity (name version : String) : Json :=
  .obj [("name", name), ("version", version), ("output_format", "json"), ("scope", "structure_only")]

def ambiguityPolicy : Json := .obj [
  ("ambiguity_is_first_class", .bool true), ("ambiguity_is_not_structure", .bool true),
  ("storage_location", "ambiguities"), ("must_include", .arr [
    "id", "kind", "source_file", "source_scope", "expression", "reason", "confidence", "resolver"]),
  ("default_resolver", "agent"), ("default_confidence", "unresolved")]

def pythonInstructions : Json := .obj [ ("builder_identity", identity "python_ast_builder" "2.0-strict"),
  ("ambiguity_policy", ambiguityPolicy)]

def pythonMapping : Json := .obj [ ("_meta", .obj [
    ("version", "1.5-strict"), ("supported_core_schema", "1.3"), ("language", "python"),
    ("ast_source", "CPython ast module"),
    ("principle", .str ("Maps syntax to core nodes only. Adapter logic (heuristics, symbols) is " ++
      "excluded."))]), ("node_mappings", .obj [
    ("Module", "File"), ("ClassDef", "Class"), ("FunctionDef", "Function"),
    ("AsyncFunctionDef", "Function"), ("Assign", "Variable"), ("AnnAssign", "Variable"),
    ("AugAssign", "Variable"), ("Name", "Variable")]), ("edge_mappings", .obj [
    ("import", "imports"), ("import_from", "imports"), ("defines_class", "defines"),
    ("defines_function", "defines"), ("contains_method", "contains_member"),
    ("contains_variable", "contains_member"), ("inherits_from", "extends"), ("extends", "extends"),
    ("function_call", "calls"), ("calls", "calls"), ("method_call", "calls"),
    ("reads_variable", "reads_from"), ("writes_variable", "writes_to"), ("writes_to", "writes_to"),
    ("raises_exception", "throws_exception"), ("decorates", "decorates"), ("await_usage", "uses_async")])]

def htmlInstructions : Json := .obj [ ("builder_identity", identity "html_ast_builder" "2.0-strict"),
  ("ambiguity_policy", ambiguityPolicy), ("dynamic_content_policy", .obj [
    ("template_expressions", .arr ["\x7b\x7b \x7d\x7d", "\x7b% %\x7d"]),
    ("handling", "emit_literal_value"), ("never_resolve", .bool true),
    ("emit_ambiguity_if_used_as_target", .bool true)])]

def interaction (source edge type : String) : Json :=
  .obj [("attribute", source), ("emits_edge", edge), ("target_node_type", type)]

def assetSource : Json := .arr [interaction "src" "links_static_asset" "StaticAsset"]

def htmlMapping : Json := .obj [ ("_meta", .obj [
    ("description", "Maps HTML Tags and Attributes to CKG Nodes and Edges."),
    ("parser", "html.parser"), ("version", "2.1-strict"),
    ("note", .str ("Only statically provable structural relations are emitted. Behavioral " ++
      "effects are deferred to ambiguities."))]), ("file_node_type", "Template"),
  ("attribute_interactions", .arr [ interaction "hx-get" "calls_api" "Route",
    interaction "hx-post" "calls_api" "Route", interaction "hx-put" "calls_api" "Route",
    interaction "hx-delete" "calls_api" "Route", interaction "hx-patch" "calls_api" "Route",
    interaction "hx-target" "targets_element" "StyleID", interaction "hx-trigger" "triggers_event" "Event"]),
  ("tag_interactions", .obj [
    ("img", assetSource), ("iframe", assetSource), ("video", assetSource), ("audio", assetSource),
    ("source", assetSource), ("link", .arr [ .obj [ ("attribute", "href"),
        ("condition", .obj [("rel", .arr ["stylesheet", "icon", "shortcut icon"])]),
        ("emits_edge", "links_static_asset"), ("target_node_type", "StaticAsset")]]), ("script", assetSource),
    ("meta", .arr [ .obj [ ("attribute", "content"), ("condition", .obj [("property", "og:image")]),
        ("emits_edge", "links_static_asset"), ("target_node_type", "StaticAsset")]]),
    ("a", .arr [interaction "href" "calls_api" "Route"]),
    ("form", .arr [interaction "action" "submits_form" "Route"])])]

/-- Something that becomes a node, but not for sure. -/
def guessed (type : String) : Json := .obj [("emit_node", type), ("confidence", "heuristic")]

def withheld (kind : String) : Json := .obj [("never_emit_node", .bool true), ("emit_ambiguity", kind)]

def cssInstructions : Json := .obj [ ("builder_identity", identity "css_ast_builder" "1.0-strict"),
  ("css_strict_rules", .obj [ ("imports", .obj [ ("allowed_syntax", .arr [
        "@import \"file.css\"", "@import 'file.css'", "@import url(file.css)",
        "@import url(\"file.css\")", "@import url('file.css')"]), ("allowed_edge", "imports"),
      ("allowed_source", "Stylesheet"), ("allowed_target", .arr ["Stylesheet", "StaticAsset", "File"]),
      ("unknown_target_emit", "import_target_unresolved")]), ("selectors", .obj [
      ("class_selector", guessed "StyleClass"), ("id_selector", guessed "StyleID"),
      ("element_selector", guessed "StyleElement"),
      ("multiple_selectors", .obj [("split_allowed", .bool true), ("do_not_merge", .bool true)])]),
    ("pseudo_classes", withheld "interaction_state"), ("media_queries", withheld "responsive_breakpoint"),
    ("supports_queries", withheld "feature_support_query"), ("keyframes", withheld "css_animation_defined"),
    ("custom_properties", withheld "css_custom_property"), ("font_face", withheld "font_family_declared"),
    ("nested_rules", .obj [ ("forbidden", .bool true), ("emit_ambiguity", "nested_css_rule_unmodeled")])]),
  ("ambiguity_policy", ambiguityPolicy)]

def selector (regex type : String) : Json :=
  .obj [("regex", regex), ("emit_node", type), ("name_group", .int 1), ("defines_edge", "defines")]

def cssMapping : Json := .obj [ ("_meta", .obj [ ("parser", "regex_v1"),
    ("description", "Regex-based mapping for CSS selectors and imports (Structural Heuristics).")]),
  ("file_node_type", "Stylesheet"), ("patterns", .obj [
    ("class_selector", selector "\\.([a-zA-Z_-][a-zA-Z0-9_-]*)(?=[\\s,\\\x7b:])" "StyleClass"),
    ("id_selector", selector "#(?!(?:[a-fA-F0-9]\x7b3\x7d|[a-fA-F0-9]\x7b6\x7d)\\b)([a-zA-Z][a-zA-Z0-9_-]*)"
      "StyleID"), ("element_selector", selector "(?<![\\.#-])\\b([a-zA-Z][a-zA-Z0-9_-]*)(?=[\\s:\\\x7b])"
      "StyleElement"), ("import_rule", .obj [
      ("regex", "@import\\s+['\"](.*?)['\"]"), ("emit_edge", "imports"), ("target_group", .int 1),
      ("target_node_type", "Stylesheet")])])]
def roleRule (node role : String) (rules : List (String × Json)) : Json :=
  .obj [("core_node", node), ("semantic_role", role), ("detection_rules", .obj rules)]

def notedRule (node role notes : String) (rules : List (String × Json)) : Json := .obj [
  ("core_node", node), ("semantic_role", role), ("notes", notes), ("detection_rules", .obj rules)]

def djangoMapping : Json := .obj [ ("_meta", .obj [
    ("description", "Maps Django constructs to Core Nodes + Semantic Roles."),
    ("role", "Enrichment Mapping")]), ("mappings", .arr [ roleRule "Class" "DataModel" [
      ("inheritance_includes", .arr ["models.Model", "django.db.models.Model"])], notedRule "Function" "View"
      ("Temporary heuristic fallback until builder emits function argument " ++
        "metadata (e.g., request parameter).") [
      ("arg_names_include", .arr ["request"]), ("file_path_contains", "views"),
      ("used_in_calls", .arr ["render", "HttpResponse", "JsonResponse", "redirect"])],
    roleRule "Class" "View" [ ("inheritance_includes", .arr [
        "View", "APIView", "ViewSet", "TemplateView", "ListView", "DetailView", "CreateView",
        "UpdateView", "DeleteView", "django.views", "rest_framework.generics", "rest_framework.views"])],
    roleRule "Call" "Route" [ ("function_name", .arr ["path", "re_path", "url"]), ("context", "urlpatterns")],
    roleRule "Class" "Form" [ ("inheritance_includes", .arr [
        "forms.Form", "forms.ModelForm", "django.forms.Form", "django.forms.ModelForm"])],
    roleRule "Class" "Serializer" [ ("inheritance_includes", .arr [
        "serializers.Serializer", "serializers.ModelSerializer",
        "rest_framework.serializers.Serializer", "rest_framework.serializers.ModelSerializer"])],
    roleRule "Class" "Admin" [
      ("inheritance_includes", .arr ["admin.ModelAdmin", "django.contrib.admin.ModelAdmin"])],
    roleRule "Class" "Middleware" [ ("inheritance_includes", .arr [
        "MiddlewareMixin", "django.utils.deprecation.MiddlewareMixin"]),
      ("file_path_contains", "middleware")], roleRule "Function" "Signal" [
      ("used_in_calls", .arr ["receiver"]), ("decorators", .arr ["receiver", "django.dispatch.receiver"])]])]

def fastapiMapping : Json := .obj [ ("_meta", .obj [
    ("description", "Maps FastAPI constructs to Core Nodes and Semantic Roles."),
    ("role", "Framework Mapping")]), ("mappings", .arr [
    roleRule "Class" "DataModel" [("inheritance_includes", .arr ["SQLModel", "Base"])],
    notedRule "Class" "APIContract" "Pydantic models define the API schema/contract."
      [("inheritance_includes", .arr ["BaseModel", "pydantic.BaseModel"])], notedRule "Function" "View"
      "In FastAPI, the path operation function acts as the View/Controller." [ ("decorated_by", .arr [
        "app.get", "app.post", "app.put", "app.delete", "app.patch", "router.get", "router.post",
        "router.put", "router.delete", "router.patch", "api_router.get", "api_router.post",
        "api_router.put", "api_router.delete"])], notedRule "Call" "Dependency"
      "FastAPI dependency injection via Depends."
      [("function_name", .arr ["Depends", "fastapi.Depends", "Security"])], notedRule "Variable" "Router"
      "APIRouter instances define modular route groups." [("assigned_value", .arr ["APIRouter"])]])]

def hasRequests : List (String × Json) := [ ("contains_attributes", .arr [
    "hx-get", "hx-post", "hx-put", "hx-delete", "hx-patch", "hx-trigger", "hx-swap", "hx-target"])]

def htmxMapping : Json := .obj [ ("_meta", .obj [
    ("framework", "HTMX"), ("description", "Maps HTMX attributes (hx-*) to Semantic Roles.")]),
  ("mappings", .arr [ notedRule "Template" "Component"
      "Templates with HTMX attributes act as interactive UI Components (logic-bound)." hasRequests,
    notedRule "Fragment" "Component"
      "HTML Fragments (partials) used in HTMX swaps are logical components." hasRequests])]

end CodeAtlas.Catalog
