import CodeAtlas.Build.Scan
import CodeAtlas.Build.Sketch
import CodeAtlas.Digest.Md5
import CodeAtlas.Markup.Tag

/-!
# Graphs of HTML files

Each file is a template. The mapping lists attributes, some on their own and some for a tag, whose
values name routes, events, elements or assets; each such value becomes a node that the template
refers to. Values with template expressions and addresses outside of the project get a ticket
instead.
-/

namespace CodeAtlas.Build

open Markup (Tag)

namespace MarkupGraph

def knownEdges (known : List Key) : List Json → Except Fault (List Key)
  | [] => .ok known
  | rule :: rest => do
    let k ← (← rule.need "emits_edge").key
    knownEdges (if known.contains k then known else known ++ [k]) rest

def knownEdgesOf (mapping : Json) : Except Fault (List Key) := do
  let byAttribute ← knownEdges [] (← (← mapping.getD "attribute_interactions" (.arr [])).elements)
  let tags ← (← mapping.getD "tag_interactions" (.obj [])).membersBy "values"
  tags.foldlM (fun known (_, rules) ↦ do knownEdges known (← rules.elements)) byAttribute

/-- A build with the marks that tell a template expression. -/
structure Setup where
  outline : Outline
  marks : Json

def Setup.ofDocuments (instructions mapping : Json) (rules : EdgeRules) : Except Fault Setup := do
  let known ← knownEdgesOf mapping
  let policy ← instructions.getD "dynamic_content_policy" (.obj [])
  let marks ← policy.getD "template_expressions" (.arr ["\x7b\x7b", "\x7b%"])
  let unknownReason (edge : String) : String := s!"Edge type '{edge}' not defined in mapping"
  return ⟨{ instructions, mapping, rules, known, unknownReason }, marks⟩

def emitNode (type : Json) (name : String) (details : List (String × Json)) : Sketching String :=
  Sketch.emitNode "Template" type name (if type.same "Template" then "structural" else "heuristic") .null
    details

/-- The attributes that have a value; the last of several of one name counts. -/
def valued (tag : Tag) : Table String String :=
  Table.ofList (tag.attributes.filterMap fun a ↦ a.value.map fun v ↦ (a.name, v))

def methodOf? (attributes : Table String String) : Option String :=
  let asked := ["post", "put", "delete", "patch"].find? fun m ↦ attributes.contains ("hx-" ++ m)
  match asked with
  | some m => some (Text.upper m)
  | none => (attributes.get? "method").map Text.upper

/-- What surrounds a value: tag, id, class and method. -/
def surroundings (name : String) (attributes : Table String String) : Json :=
  let given (key : String) : List (String × Json) :=
    ((attributes.get? key).map fun v ↦ (key, Json.str v)).toList
  .obj ([("tag", .str name)] ++ given "id" ++ given "class"
    ++ ((methodOf? attributes).map fun m ↦ ("method", Json.str m)).toList)

def markIn? (value : String) : List Json → Except Fault (Option String)
  | [] => .ok none
  | mark :: rest => do
    if ← (Json.str value).holds mark then return some mark.display else markIn? value rest

def isExternal (value : String) : Bool :=
  let address := Text.lower (Text.trim value)
  ["http:", "https:", "//", "mailto:"].any (Text.startsWith address)

/-- Adds what a value names, under the rule that found it. -/
def emitValue (setup : Setup) (rule : Json) (value : String) (line : Nat) (around : Json) :
    Sketching Unit := do
  let o := setup.outline
  match ← markIn? value (← setup.marks.elements) with
  | some mark =>
    Sketch.note o "dynamic_value_unresolved" value s!"Contains dynamic pattern '{mark}'"
  | none =>
    if isExternal value then
      Sketch.note o "external_reference_unmodeled" value "External URL references are not structural edges"
    else
      let type ← rule.need "target_node_type"
      let edge ← rule.need "emits_edge"
      let target ← emitNode type value [("line_start", .int line), ("attributes", around)]
      Sketch.linkTo o "Template" target type (.ok (some edge))

def ruledValue? (attributes : Table String String) (rule : Json) : Except Fault (Option String) := do
  match ← (← rule.need "attribute").key with
  | .str name => return attributes.get? name
  | _ => return none

def meets (attributes : Table String String) (condition : String × Json) : Bool :=
  let actual := ((attributes.get? condition.1).map Json.str).getD .null
  match condition.2 with
  | .arr options => options.any (·.same actual)
  | wanted => actual.same wanted

def conditionHolds (attributes : Table String String) (rule : Json) : Except Fault Bool := do
  let condition ← rule.get "condition"
  if condition.truthy then return (← condition.membersBy "items").all (meets attributes)
  else return true

/-- Applies the rules for an attribute on any tag, and those for this tag. -/
def visitTag (setup : Setup) (tag : Tag) : Sketching Unit := do
  let attributes := valued tag
  let around := surroundings tag.name attributes
  let mapping := setup.outline.mapping
  for rule in ← (← mapping.getD "attribute_interactions" (.arr [])).elements do
    match ← ruledValue? attributes rule with
    | some value => emitValue setup rule value tag.line around
    | none => pure ()
  let byTag ← mapping.getD "tag_interactions" (.obj [])
  if ← byTag.holds tag.name then
    for rule in ← (← byTag.need tag.name).elements do
      if ← conditionHolds attributes rule then
        match ← ruledValue? attributes rule with
        | some value => emitValue setup rule value tag.line around
        | none => pure ()

def reader (setup : Setup) : Reader where
  outline := setup.outline
  fileKind := "Template"
  details text := [("hash", .str (Md5.ofText text))]
  read text := do
    (Markup.scan text).tags.forM (visitTag setup)
    match (Markup.scan text).fault with
    | some f => throw f
    | none => pure ()
  entry source f _ := .obj [("error", .str f.message), ("file", .str source.path)]

/-- The graph of a list of files, with tickets numbered after those already issued. -/
def ofSources (setup : Setup) (issued : Nat) (sources : List Source) : Sketch :=
  sources.foldl (reader setup).add { draft := { issued } }

end MarkupGraph

def buildMarkupGraph (c : Configuration) (sourceRoot out : String) : Command Unit := do
  let root ← Command.resolve (Path.ofText sourceRoot)
  let (instructions, mapping, edges) ← c.load
  let rules ← EdgeRules.ofDocument edges
  let (directory, files) ← chooseFiles c.rules root "*.html"
  let setup ← MarkupGraph.Setup.ofDocuments instructions mapping rules
  Command.say s!"Scanning {files.length} files..."
  let session ← get
  let draft := (MarkupGraph.ofSources setup session.issued
    (files.map (sourceAt session.tree directory))).draft
  set { session with issued := draft.issued }
  writeGraph (Path.ofText out) (draft.document [("builder", .str (Language.program .html)),
     ("builder_version", ← builderVersion instructions), ("generated_at", .str session.now)])
  Command.say s!"Done. {draft.nodes.length} nodes, {draft.edges.length} edges."

end CodeAtlas.Build
