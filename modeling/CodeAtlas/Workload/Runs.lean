import CodeAtlas.Adapter.Governance
import CodeAtlas.Build.MarkupGraph
import CodeAtlas.Build.References
import CodeAtlas.Build.StyleGraph
import CodeAtlas.Catalog.Documents
import CodeAtlas.Graph.Conformance
import CodeAtlas.Graph.Demonstration
import CodeAtlas.Graph.Enrichment
import CodeAtlas.Graph.Equivalence
import CodeAtlas.Graph.Merge
import CodeAtlas.Graph.Notes
import CodeAtlas.Inventory.FileCard
import CodeAtlas.Text.Numeral

/-!
# Workloads

Each workload runs one part of the library on an input of a given size and tells in a few numbers
what came out. There are texts that hold a given number of like parts, graphs of files with a class,
a method and a function each, where a class extends, a function calls and a file imports the one of
the file before, and a graph as it comes out of a project of middle size: its nodes by kind, its
edges by number of source, target and kind, and the few names and attributes by which nodes are
searched for.
-/

namespace CodeAtlas.Workload

def joinLines (lines : List String) : String := String.intercalate "\n" lines

def scriptHead : List String :=
  ["\"\"\"Module doc.\"\"\"", "import os", "import sibling_mod", "from . import sib",
   "from ..pkg import thing", "from sibling_mod import helper0", "GLOBAL_A = 1", "GLOBAL_B: int = 2"]

/-- A class and a function; each but the first refers to the ones before it. -/
def scriptUnit (i : Nat) : List String :=
  let base := if i = 0 then "object" else s!"Base{i - 1}"
  [s!"class Base{i}({base}):",
   s!"    \"\"\"d{i}\"\"\"", s!"    attr{i} = {i}", s!"    attr{i}b = {i}", s!"    typed{i}: int = {i}",
   s!"    class Inner{i}: pass", "    @staticmethod",
   s!"    def meth{i}(self, x, y={i}, z=GLOBAL_A, w=[1]) -> 'int':", "        \"\"\"m\"\"\"",
   s!"        self.attr{i} = x", "        v = x", "        v = x", "        v = x",
   "        def inner(): pass", s!"        helper{i}(x)", s!"        self.meth{i}(x)", "        return x",
   "    @property", s!"    async def ameth{i}(self) -> None:", "        return None", s!"@Base{i}.meth{i}",
   s!"@deco_call({i})", "@unknown_dec", s!"def helper{i}(a, b={i}) -> Base{i}:", "    GLOBAL_A = a",
   "    c = a", "    c = a", "    c = a", "    c = a", s!"    Base{i}()", s!"    helper{i - 1}(a)",
   "    return a"]

def script (units : Nat) : String :=
  joinLines (scriptHead ++ (List.range units).flatMap scriptUnit)

/-- A script with the given number of classes, each of which imports five modules. -/
def classScript (classes : Nat) : String :=
  joinLines ((List.range classes).flatMap fun i ↦
    [s!"class C{i}:", s!"    \"\"\"c{i}\"\"\"", "    import ast, json, os, re, sys"])

/-- Tags that name thirteen things of their own, two that all parts share, and one expression. -/
def templateUnit (i : Nat) : List String :=
  [s!"<button hx-get=\"/get/{i}\" hx-trigger=\"click\" hx-target=\"#main\">go</button>",
   s!"<button hx-post=\"/post/{i}\">a</button><button hx-put=\"/put/{i}\">b</button>",
   s!"<button hx-delete=\"/delete/{i}\">c</button><button hx-patch=\"/patch/{i}\">d</button>",
   s!"<img src=\"/i/{i}.png\"><video src=\"/v/{i}.mp4\"></video><audio src=\"/a/{i}.mp3\"></audio>",
   s!"<iframe src=\"/f/{i}.html\"></iframe><script src=\"/s/{i}.js\"></script>",
   s!"<link rel=\"stylesheet\" href=\"/c/{i}.css\">",
   s!"<a href=\"/page/{i}\">p</a><form action=\"/form/{i}\"></form>", "<a href=\"\x7b\x7b \x7d\x7d\">n</a>"]

def template (units : Nat) : String :=
  joinLines (["<html>", "<a href=\"//cdn/x\">x</a><a href=\"mailto:a@b\">m</a>"]
    ++ (List.range units).flatMap templateUnit ++ ["</html>"])

def stylesheet (rules : Nat) : String :=
  joinLines (["/* @media (print) @media (screen) @keyframes fade @keyframes turn */"]
    ++ (List.range rules).map fun i ↦ s!".card{i} #box{i} tag{i} \x7b \x7d")
def node (type id name : String) (details : List (String × Json) := []) : Json :=
  .obj ([("id", .str id), ("type", .str type), ("node_type", .str type), ("name", .str name)] ++ details)

def edge (source type target : String) : Json :=
  .obj [("source", .str source), ("target", .str target), ("type", .str type)]

def filePath (i : Nat) : String := s!"app/m{i}.py"

/-- What a graph of files is like. -/
structure Layers where
  files : Nat
  orphans : Nat := 0
  hash : Nat → String := fun i ↦ s!"h{i}"
  /-- Whether each function decorates the class beside it. -/
  isDecorated : Bool := false
  hasRoles : Bool := false

def fileNodes (l : Layers) (i : Nat) : List Json :=
  let path := filePath i
  let roles : List (String × Json) :=
    if l.hasRoles then [("semantic_roles", .arr ["DataModel"])] else []
  [node "File" s!"File:{path}" s!"m{i}.py" [("file_path", .str path), ("hash", .str (l.hash i))],
   node "Class" s!"{path}::C{i}" s!"C{i}" roles, node "Method" s!"{path}::C{i}::meth" "meth",
   node "Function" s!"{path}::fn{i}" s!"fn{i}"]

def fileEdges (l : Layers) (i : Nat) : List Json :=
  let path := filePath i
  let before := filePath (i - 1)
  [edge s!"File:{path}" "defines" s!"{path}::C{i}",
   edge s!"File:{path}" "defines" s!"{path}::fn{i}",
   edge s!"{path}::C{i}" "contains_member" s!"{path}::C{i}::meth",
   edge s!"{path}::C{i}" "extends" s!"{before}::C{i - 1}",
   edge s!"{path}::fn{i}" "calls" s!"{before}::fn{i - 1}", edge s!"File:{path}" "imports" s!"File:{before}"]
  ++ if l.isDecorated then [edge s!"{path}::fn{i}" "decorates" s!"{path}::C{i}"] else []

def orphan (i : Nat) : Json := node "Route" s!"Orphan:{i}" s!"/r{i}"

def ticket (i : Nat) : Json :=
  .obj [("id", .str s!"amb{i}"), ("kind", "x"), ("reason", "r"), ("confidence", "unresolved")]

def graphOf (nodes edges tickets : List Json) : Json :=
  .obj [("nodes", .arr nodes), ("edges", .arr edges), ("ambiguities", .arr tickets)]

def Layers.graph (l : Layers) : Json :=
  graphOf ((List.range l.files).flatMap (fileNodes l) ++ (List.range l.orphans).map orphan)
    ((List.range l.files).flatMap (fileEdges l)) ((List.range l.files).map ticket)

def salted (salt : String) (i : Nat) : String := s!"h{salt}{i}"

def withNodes (g : Json) (more : List Json) : Json :=
  g.setMember "nodes" (.arr (((g.member? "nodes").getD .null).items ++ more))
def sampleTypes : List String :=
  ["Class", "Event", "File", "Function", "Method", "Route", "StaticAsset", "StyleClass",
   "StyleElement", "StyleID", "Stylesheet", "Template", "Variable"]

def sampleKinds : List String :=
  ["calls", "calls_api", "contains_member", "decorates", "defines", "extends", "imports",
   "links_static_asset", "submits_form", "targets_element", "triggers_event", "writes_to"]

def typeTable : String :=
  "sBL'vT6Ur%b4ZIKtnZ,GhOKx<?7u>Fbo[Vnr[`*!>m9?9xi0A7v=T4HqWQRy#E.vW8Zrc58W*G&/s#9cYVII>`fwO_jA.*3E&V_BR'n+Ff4
<s?LR8XylQ[^S$!SOI<N;C;<ymNrM'sF;Cv7rZ6G=fs+#12G=ckgUS]hI9RMl?Ix@bo`b^F8]KZEiW6um:EBSz%^DbFWqfk5A<?Nq!&@)Ke*31
Iof^znx3bhbow:t"

/-- Edges as source, target and kind. -/
def edgeTable : String :=
  "tj/GbMNyKcLu^0m,@#%IEF_Rtq`FUnyn0od?O=g?#8`!0TS;@6&*g'~x$94!1_A@M1U^$VBdY4sJg)U![dE^@'Aagv*P,xdOi3Ft_;R#nPy
PK8wR*'H/zKQ@Q@HqaWDQGs#ZB5i8r&^(VGw=w2M>/^<;aAHDR#+(?Qq?2jbvgv1Z#2VSs)u[^I^_fOfH([7nr>o*TzfDbF1AI9/Usu5vQK|=I
D`Jq3X.HVQ1~2=&&$tVPK>DJ&^BoJBavBtDQkYOF~P~0u:zq'4GW%RC(;g]U0/*d1+bmtphp(G70Fu$d^e!f|9RJ.o#B^e112Qu3fZ>uS;zCXc
p`,*%>f?Pdu^<uQ|r3=>p#[x*MWC65ujA|~*~o(BM_0@?Z_+2WJ^!OAn=>G(AE~=g6B~IubbU~Au#1[p;WV>][:+K~&D)5?tC!x_jd/I*,O]Ct
m&J:Rj^$>0U/#SS5MsX4MB'D>rsv.(~B<%I(P(Ge.9'FJi#8l=_7q?(2fc.%dK2WKH~0#A?@'^.lu1#/b(K.NpH4(zY]jop+`EG)[Hs_@:f=s~
m@@|u@Su:t|q+pKDVHbU.B+m<,b!yf?z0!|ymxPb,wO3**sCOh>e%br.T3|ul=nvY/aSm!qqcgz0;>L]h57.+Jomka]D<p'4|(/cKrmo']aR8i
(@E?&w3I_kM7Z0w52(4&<YO@?/3e~8d?uwVKhoga9T5yN%!pT|cunujzzXHldZu'',l82%h_e;Xzi:6=zyhT$nrM&NRw.^?()=QN#Ukm:NKI1w
BD#Xl?^q3aFkS<d^..sgBsIsG*2$I&yi)dPb*y^l4'H.5R|p*yGY3yHY|M%Qhm_5stfSfn/gt%_,&0<vklk*C;LA9CJV?^WE_=.g+(*(.GJ+S6
w(+c5S,Q']bIIk!S(^V)#/F3Z`U(|?EFZD=ToO,JDrGGA*;%<7r4!oKH.A@I+H1gQ[4s|>_=C:Uf4(1S6&!cpXZw69&|aCAWNf9%iG,erpO)O;
Ks(r:?y49'(K9b@wehbFOkHuXS.`X=A9WiXnthTRl$C'aer(^t>!75#)W,iR:#0@6ec)b:TeQs!qamkjIRyK?6x4nVd|f1cJc?sw(p7zJ=s=f7
,k7$6VF'7V1D$]npf)^TQ$b@y_SBE)n4Eze+L_'Uxf)sfa&O;_jObHD2a00^DU4wt(u9U?'XH3,5jzWH$]I~Z*D'k.9'*pw0I6rV4zXcVwNY.g
Y_WQstU4A|j7<OxPt_#YdVy,ZT=GZw4WSXFhYO%HHp@4jB_<~AvtWsF&t`'r`P@,nvS,E.(yR`pDj:xtJa_;wSOsh]DG%$`'iK$X6o^k:t[0(B
e6;oaWcr1jFc~5P[,H2<(X~`S>pK>DnJCFh>;QohI&g/EktqU=.x;Y!3O='3O=gpE]"

def demoTable : String :=
  "0 10 654 665 712 720 820 824 841 852"

def modelTable : String :=
  "1 5"

def sampleTags : List String :=
  ["a", "button", "div", "form", "img", "link", "script"]

/-- Numbers of nodes that stand for a tag, each with the number of the tag. -/
def tagTable : String :=
  "821 5 822 1 823 1 824 6 826 1 827 1 828 3 829 3 831 5 832 5 833 4 834 0 835 3 836 6 837 1 838 1 " ++
  "839 2 840 2"

def hoverNode : Nat := 879

def numbersOf (table : String) : List Nat :=
  (Text.splitBy " " table).filterMap fun w ↦ (Text.readInt? w).map Int.toNat

def pairs : List Nat → List (Nat × Nat)
  | a :: b :: rest => (a, b) :: pairs rest
  | _ => []

def triples : List Nat → List (Nat × Nat × Nat)
  | a :: b :: c :: rest => (a, b, c) :: triples rest
  | _ => []

def nameAt (names : List String) (i : Nat) : String := (names[i]?).getD ""

def isWithin (ranges : List (Nat × Nat)) (i : Nat) : Bool :=
  ranges.any fun (first, last) ↦ first ≤ i && i ≤ last

def sampleName (demo model : List (Nat × Nat)) (i : Nat) : String :=
  if isWithin model i then s!"DemoModel{i}" else if isWithin demo i then s!"demo{i}" else s!"node{i}"

def sampleNode (demo model tags : List (Nat × Nat)) (type : String) (i : Nat) : Json :=
  let name := sampleName demo model i
  let attributes : List (String × Json) :=
    match Table.get? tags i with
    | some t => [("attributes", .obj [("tag", .str (nameAt sampleTags t))])]
    | none =>
      if i = hoverNode then [("attributes", .obj [("pseudo_state", .str "hover")])] else []
  node type name name attributes

def sampleGraph : Json :=
  let demo := pairs (numbersOf demoTable)
  let model := pairs (numbersOf modelTable)
  let tags := pairs (numbersOf tagTable)
  let types := (pairs (numbersOf (Text.Packed.read 1275 typeTable))).flatMap fun (t, count) ↦
    List.replicate count (nameAt sampleTypes t)
  let nodes := types.zipIdx.map fun (type, i) ↦ sampleNode demo model tags type i
  let edges := (triples (numbersOf (Text.Packed.read 8389 edgeTable))).map fun (s, t, k) ↦
    edge (sampleName demo model s) (nameAt sampleKinds k) (sampleName demo model t)
  graphOf nodes edges []
open Workload Catalog Build List Adapter

def count (n : Nat) : Json := .int n

def total (ns : List Nat) : Nat := ns.foldl (· + ·) 0

def isEach (k i : Nat) : Bool := i % k == 0

/-- The first elements of a list; a count below zero leaves out that many at the end. -/
def leading {α : Type} (n : Int) (xs : List α) : List α :=
  xs.take (if n < 0 then xs.length + n else n).toNat

/-! ## Builders -/

def sourceOf (name text : String) : Source := ⟨name, name, .ok text⟩

/-- The members of the first definitions below files, in the order of registration; all are gone
through four times. -/
def membersSeen (survey : Survey) (n : Int) : Except Fault Nat := do
  let definitions := survey.registry.keys.filter (Text.occursIn "::")
  let scopes ← (leading n definitions).mapM (References.scopeOf survey)
  return 4 * total (scopes.map fun scope ↦ scope.symbols.length)

/-- References between a script and its sibling, after the definitions of both are known. -/
def scripts (size : Int) : Except Fault Json := do
  let units := size.toNat
  let schema ← Schema.ofDocuments pythonMapping coreEdges
  let setup : Setup := ⟨schema, pythonInstructions⟩
  let sources := [sourceOf "mod.py" (script units), sourceOf "sibling_mod.py" (script (max 2 (units / 2)))]
  let defined := sources.foldl (Survey.addDefinitions setup) {}
  let start := { defined with draft := { defined.draft with edges := [], ambiguities := [] } }
  let survey := sources.foldl (Survey.addReferences setup) start
  let draft := survey.draft
  let ids := draft.nodes.filterMap fun n ↦ (n.member? "id").bind Json.asStr?
  let sorted := ids.mergeSort fun a b ↦ decide (a ≤ b)
  return .arr [count draft.nodes.length, count draft.edges.length,
    count draft.ambiguities.length, count (← membersSeen survey size), .arr ((sorted.take 50).map Json.str)]

def draftCounts (d : Draft) : Json :=
  .arr [count d.nodes.length, count d.edges.length, count d.ambiguities.length]

def templates (size : Int) : Except Fault Json := do
  let rules ← EdgeRules.ofDocument coreEdges
  let setup ← MarkupGraph.Setup.ofDocuments htmlInstructions htmlMapping rules
  let page := sourceOf "page.html" (template size.toNat)
  return draftCounts (MarkupGraph.ofSources setup 0 [page]).draft

def stylesheets (size : Int) : Except Fault Json := do
  let allowed ← EdgeRules.ofDocument coreEdges
  let outline ← StyleGraph.outlineOf cssInstructions cssMapping allowed
  return draftCounts
    (StyleGraph.ofSources outline 0 [sourceOf "style.css" (stylesheet size.toNat)]).draft

/-! ## Questions -/

/-- What is searched for, one after the other and again from the start. -/
def queries : List String :=
  ["demo", "DemoModel", "decorator:login", "tag:button", "pseudo_state:hover", "node_type:Class",
   "tag:form", "tag:script", "tag:img"]

def firstIds (g : Json) (n : Int) : Except Fault (List Json) := do
  (leading n (← Graph.nodesOf g)).mapM fun v ↦ v.need "id"

/-- Hits of some searches and of a look at each of the first twenty nodes. -/
def searches (n : Int) : Except Fault Json := do
  let g := sampleGraph
  let found ← queries.mapM fun q ↦ do return (← Graph.search g (.str q) .null).length
  let hits := (range n.toNat).map fun i ↦ (found[i % queries.length]?).getD 0
  let seen ← (← firstIds g 20).filterM fun id ↦ do return (← Graph.node? g id).isSome
  return count (total hits + seen.length)

/-- How much the first nodes depend on, how much depends on them, and the calls between them. -/
def traversals (n : Int) : Except Fault Json := do
  let g := sampleGraph
  let ids ← firstIds g n
  let traced (direction : String) : Except Fault Nat := do
    return total (← ids.mapM fun id ↦ do (← Graph.trace g id direction (.int 2)).size)
  let calls ← ids.mapM (Graph.callGraph g)
  let counted (name : String) : Except Fault Nat := do
    return total (← calls.mapM fun c ↦ do
      return ((← (← c.need "summary").need name).asInt?.getD 0).toNat)
  return .arr [count (← traced "outgoing"), count (← traced "incoming"),
    count (← counted "outgoing_count"), count (← counted "incoming_count")]

/-! ## Checks -/

def wrongNodes : List Json :=
  [.obj [("type", "File")], .obj [("id", "untyped")],
   .obj [("id", "odd"), ("type", "Nonsense")]]

def builtEdge (source type target : String) : Json :=
  .obj [("edge", .str type), ("from", .str source), ("to", .str target)]

/-- Edges that are wrong: without ends, of an unknown kind, from and to nowhere, and not allowed. -/
def wrongEdges : List Json :=
  [.obj [("edge", "calls")], builtEdge "odd" "nonsense" "odd",
   builtEdge "nowhere" "calls" "odd", builtEdge "odd" "calls" "nowhere", builtEdge "odd" "calls" "odd"]

def wrongTickets : List Json :=
  [.obj [("id", "t")], (ticket 0).setMember "confidence" "certain"]

/-- The check of a graph that is right but for some nodes, edges and tickets. -/
def conformance (size : Int) : Except Fault Json := do
  let n := size.toNat
  let nodes := (range n).flatMap fun i ↦
    [node "File" s!"f{i}" s!"f{i}", node "Class" s!"f{i}::C" "C", node "Method" s!"f{i}::C::m" "m"]
  let edges := (range n).flatMap fun i ↦ [builtEdge s!"f{i}" "defines" s!"f{i}::C",
      builtEdge s!"f{i}::C" "contains_member" s!"f{i}::C::m", builtEdge s!"f{i}" "imports" s!"f{i}"]
  let types ← Graph.CoreSchema.edgeTypesOf coreEdges
  let r ← Graph.Conformance.check coreNodes types "graph.json"
    (graphOf (nodes ++ wrongNodes) (edges ++ wrongEdges) wrongTickets)
  return .arr [.str (if r.passes then "pass" else "fail"), count r.nodes, count r.edges,
    count r.errors.length, count r.warnings.length]

def coreRules (n : Nat) : Json :=
  .obj ((range n).map fun i ↦ (s!"k{i}",
      .obj [("value", .int 1), ("more", "x"), ("list", .arr []), ("flag", .bool true)]))

/-- An adapter that is wrong in two of every four keys: one holds only a value too much, and one
lacks a value and has another of the wrong kind. -/
def adapterRules (n : Nat) : Json :=
  .obj ((range n).map fun i ↦
    let rest : List (String × Json) := [("list", .arr []), ("flag", .bool true)]
    (s!"k{i}", .obj (
      if isEach 4 i then [("extra", .int 1)]
      else if i % 4 = 1 then ("value", "1") :: rest
      else ("value", .int 1) :: ("more", "x") :: rest)))

def governance (size : Int) : Except Fault Json := do
  let n := size.toNat
  let core := coreRules n
  let same ← findings "" core core
  let apart ← findings "" core (adapterRules n)
  let rules := (range n).map fun i ↦ Json.obj
    [("core_node", .str (if isEach 2 i then "Nonsense" else "Class")),
     ("semantic_role", .str (if isEach 3 i then "Nothing" else "Class"))]
  let mapping ← checkMapping (.obj [("mappings", .arr rules)]) coreNodes
  let contracts := (range n).map fun i ↦ (s!"role{i}", Json.obj
    [("violation_severity", .str (if isEach 2 i then "fatal" else "error"))])
  let severities ← checkContracts (.obj [("contracts", .obj contracts)])
  let commented : Json := .obj [(commentary, .obj [])]
  let lacking ← missingCommentary commented (.obj []) "rules.json"
  let present ← missingCommentary commented commented "rules.json"
  return .arr [count same.length, count apart.length, count mapping.length,
    count severities.length, count lacking.length, count present.length]

/-! ## Graphs -/

/-- A fragment with two nodes for each file, and an edge between them if it has any. -/
def fragment (language : String) (files : Nat) (joined : Bool) : Graph.Fragment :=
  let ids (i : Nat) : String × String := (s!"{language}/{i}", s!"{language}/{i}::part")
  let nodes := (range files).flatMap fun i ↦
    [node "File" (ids i).1 (ids i).1 [("file_path", .str (ids i).1)], node "Class" (ids i).2 (ids i).2]
  let edges := if joined then
    (range files).map fun i ↦ builtEdge (ids i).1 "defines" (ids i).2 else []
  ⟨s!"frag_{language}.json", .ok (graphOf nodes edges [])⟩

def merging (size : Int) : Except Fault Json := do
  let files := size.toNat
  let g ← Graph.merge [fragment "css" files false, fragment "html" files true, fragment "python" files true]
  let sources ← (← g.need "_meta").need "fragments_merged"
  return .arr [count (← (← g.need "nodes").size), count (← (← g.need "edges").size), sources]

/-- A graph that has grown by five files, of which only the first third is as it was. -/
def changes (size : Int) : Except Fault Json := do
  let files := size.toNat
  let extra := node "File" "File:app/extra.py" "extra.py"
  let gone := node "File" "File:app/gone.py" "gone.py"
  let hash (i : Nat) : String := salted (if i < files / 3 then "O" else "N") i
  let now := withNodes (Layers.graph { files, orphans := 3, hash }) [extra]
  let before := withNodes
    (Layers.graph { files := max 1 (files - 5), orphans := 3, hash := salted "O" }) [extra, gone]
  let r ← Graph.Diff.between now before
  return .arr [← r.document.need "stats", count r.files.length, count (← Graph.ownersOf now).length]

def roleMapping : Json :=
  .obj [("mappings", .arr (["File", "Class", "Method", "Function"].flatMap fun type ↦
    [1, 2].map fun (i : Nat) ↦ Json.obj
      [("semantic_role", .str s!"{type}Role{i}"), ("core_node", .str type)]))]

def roles (size : Int) : Except Fault Json := do
  let raw := Layers.graph { files := size.toNat }
  let p ← Graph.Enrichment.plan raw .null .null
  let t ← Graph.Enrichment.topologyOf p raw
  let (nodes, given) ← Graph.Enrichment.applyMapping t (p.fresh, 0) roleMapping
  return .arr [count nodes.length, count given]

/-- A graph against itself, and against the graph without the nodes of its first files. -/
def equivalence (size : Int) : Except Fault Json := do
  let files := size.toNat
  if files = 0 then throw .outOfRange
  let raw := Layers.graph { files }
  let kept := (← Graph.nodesOf raw).drop (4 * max 1 (files / 8))
  let cut := raw.setMember "nodes" (.arr kept)
  let same ← Graph.Equivalence.violations raw raw
  let lost ← Graph.Equivalence.violations raw cut
  let gained ← Graph.Equivalence.violations cut raw
  return .arr [.bool same.isEmpty, .bool lost.isEmpty, .bool gained.isEmpty, count lost.length]

/-- Every third node has a full note that knows the hash of the node, but every fifth node has an
empty one. -/
def noted (i : Nat) (n : Json) : Json :=
  if i % 5 = 4 then n.setMember "llm_enrichment" (.obj [])
  else if i % 3 = 1 then
    n.setMember "llm_enrichment" (.obj [("intent", "i"), ("summary", "s"),
      ("enriched_at_hash", (n.member? "hash").getD .null)])
  else n

def notes (size : Int) : Except Fault Json := do
  let graph := Layers.graph { files := size.toNat }
  let tickets := [(ticket 0).setMember "llm_resolution" (.obj []),
    (ticket 1).setMember "llm_resolution" (.obj [("status", "resolved")]), ticket 2]
  let nodes := (← Graph.nodesOf graph).mapIdx noted
  let byAgent := (graph.setMember "nodes" (.arr nodes)).setMember "ambiguities" (.arr tickets)
  let summary (isFull : Bool) : Except Fault Json := do
    (Graph.Notes.surveyDocument "" "" (← Graph.Notes.survey isFull graph byAgent)).need "_summary"
  let progress ← Graph.Notes.progress graph byAgent
  let remarks ← Graph.Notes.remarks byAgent
  return .arr [← summary false, ← summary true, count progress.nodes, count remarks.errors.length,
    count remarks.warnings.length]

/-! ## The demonstration -/

def tagCount (g : Json) : Except Fault Nat := do
  return total ((← Graph.nodesOf g).map fun n ↦
    let note := (n.member? "llm_enrichment").getD .null
    ((note.member? "domain_tags").getD .null).items.length)

/-- Notes for the sample application and further nodes of it, written twice. -/
def demonstration (size : Int) : Except Fault Json := do
  let known := applicationNotes.map fun (id, _) ↦
    Json.obj [("id", .str id), ("name", .str (Graph.Demonstration.lastPart id))]
  let more := (range size.toNat).map fun i ↦
    node "Function" s!"extra{i}" s!"extra{i}" [("file_path", "_demo/extra.py")]
  let once ← Graph.Demonstration.describe "" (graphOf (known ++ more) [] [])
  let twice ← Graph.Demonstration.describe "" once
  let noted := (← Graph.nodesOf twice).filter fun n ↦ (n.member? "llm_enrichment").isSome
  return .arr [count ((← tagCount once) + (← tagCount twice)), count noted.length]

def toolingPath : String :=
  ((Inventory.Layer.signs.find? fun s ↦ s.2 = .tooling).elim "" Prod.fst) ++ "/tool.py"

def layerPaths : List String :=
  ["notes.py", "config.py", "models.py", toolingPath, "pages/home.py"]

/-- What a script with a number of classes says about itself, and the layers of some paths. -/
def inventory (size : Int) : Except Fault Json := do
  let tree ← Script.parse (classScript size.toNat)
  let facts ← Inventory.Facts.ofTree tree
  if facts.classes.isEmpty then throw .outOfRange
  return .arr (count (facts.imports.length + facts.classes.length)
    :: layerPaths.map fun p ↦ .str (Inventory.Layer.ofPath p).name)

/-- Notes for the sample project among other nodes, and resolutions of tickets, of which there must
be one. -/
def application (size : Int) : Except Fault Json := do
  let n := size.toNat
  let known := projectNotes.map fun (id, _) ↦ Json.obj [("id", .str id)]
  let others := (range n).map fun i ↦ Json.obj [("id", .str s!"other{i}")]
  let tickets := (range n).map fun i ↦
    ((ticket i).setMember "kind" "call_target_unknown").setMember "expression" "render(request)"
  let g := (graphOf (known ++ others) [] tickets).setMember "_meta" (.obj [])
  let (g, processed) ← Graph.Demonstration.annotate "" g
  let resolved := ((g.member? "ambiguities").getD .null).items
  if resolved.isEmpty then throw .outOfRange
  let status := (resolved.head?.bind fun t ↦
    (t.member? "llm_resolution").bind fun r ↦ r.member? "status").getD .null
  let written := (← Graph.nodesOf g).filter fun v ↦ (v.member? "llm_enrichment").isSome
  return .arr [count (← Graph.nodesOf g).length, count resolved.length, count written.length,
    count processed, status]

inductive Part
  | scripts
  | templates
  | stylesheets
  | searches
  | traversals
  | conformance
  | governance
  | merging
  | changes
  | roles
  | equivalence
  | notes
  | demonstration
  | inventory
  | application
deriving DecidableEq, Repr

namespace Part

/-- The size of the input if none is given. -/
def usualSize : Part → Int
  | .scripts => 45
  | .templates => 200
  | .stylesheets => 700
  | .searches => 50
  | .traversals => 60
  | .conformance => 200
  | .governance => 120
  | .merging => 250
  | .changes => 150
  | .roles => 100
  | .equivalence => 250
  | .notes => 300
  | .demonstration => 400
  | .inventory => 7000
  | .application => 6000

def run : Part → Int → Except Fault Json
  | .scripts => Workload.scripts
  | .templates => Workload.templates
  | .stylesheets => Workload.stylesheets
  | .searches => Workload.searches
  | .traversals => Workload.traversals
  | .conformance => Workload.conformance
  | .governance => Workload.governance
  | .merging => Workload.merging
  | .changes => Workload.changes
  | .roles => Workload.roles
  | .equivalence => Workload.equivalence
  | .notes => Workload.notes
  | .demonstration => Workload.demonstration
  | .inventory => Workload.inventory
  | .application => Workload.application

end Part

end CodeAtlas.Workload
