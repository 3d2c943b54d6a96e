import CodeAtlas.Fault
import CodeAtlas.Number.Double

/-!
# Syntax trees of Python source

A tree has one kind of node. What a node is and all that is not a tree below it stands in its form;
its children stand in the order in which a walk over the tree visits them. Where a form has several
groups of children, it says how many each group has. A walk visits nodes inside one another, and
each takes some steps of the depth that a walk may have.

The first statement of a module, class or function is its documentation if it is a plain string.
Indentation is taken off: tabs are widened, the first line loses its leading blanks, the others lose
what all of them have in common, and empty lines at both ends go.
-/

namespace CodeAtlas.Script

inductive Usage
  | load
  | store
  | delete
deriving DecidableEq, Repr

inductive Constant
  | none
  | bool (b : Bool)
  | ellipsis
  | int (n : Nat)
  | float (x : Double)
  | imaginary (x : Double)
  /-- A text; `marked` tells that its literal carried the letter `u`. -/
  | text (s : String) (marked : Bool)
  | bytes (b : List UInt8)
deriving DecidableEq, Repr

/-- A name in an import, with the name it is bound to if that is another one. -/
structure Alias where
  name : String
  asName : Option String
deriving DecidableEq, Repr

/-- The groups of a parameter list. -/
structure ParamShape where
  positionalOnly : Nat
  plain : Nat
  hasRest : Bool
  keywordOnly : Nat
  /-- For each keyword-only parameter, whether it has a default. -/
  keywordDefaults : List Bool
  hasKeywordRest : Bool
deriving DecidableEq, Repr

inductive Form
  -- expressions
  | boolOp (op : String)
  | namedExpr
  | binOp (op : String)
  | unaryOp (op : String)
  | lambda
  | ifExp
  /-- For each entry, whether it has a key; the others spread a mapping. -/
  | dict (keys : List Bool)
  | set
  | listComp
  | setComp
  | dictComp
  | generator
  | comprehension (isAsync : Bool)
  | await
  | yield
  | yieldFrom
  | compare (ops : List String)
  | call (args : Nat)
  | keyword (name : Option String)
  | formatted (conversion : Int)
  | joined
  | constant (value : Constant)
  | attribute (name : String) (usage : Usage)
  | subscript (usage : Usage)
  | starred (usage : Usage)
  | name (id : String) (usage : Usage)
  | list (usage : Usage)
  | tuple (usage : Usage)
  | slice (lower upper step : Bool)
  -- parameters
  | params (shape : ParamShape)
  | param (name : String)
  -- statements
  | module
  | function (name : String) (isAsync : Bool) (body decorators : Nat)
  | classDef (name : String) (bases keywords body : Nat)
  | return_
  | delete
  | assign (targets : Nat)
  | augAssign (op : String)
  | annAssign
  | for_ (isAsync : Bool) (body : Nat)
  | while_ (body : Nat)
  | if_ (body : Nat)
  | with_ (isAsync : Bool) (items : Nat)
  | withItem
  | match_
  | matchCase
  | raise
  | try_ (isStar : Bool)
  | handler (name : Option String)
  | assert
  | import_ (names : List Alias)
  | importFrom (source : Option String) (names : List Alias) (level : Nat)
  | global (names : List String)
  | nonlocal (names : List String)
  | expr
  | pass
  | break
  | continue
  -- patterns
  | matchValue
  | matchSingleton (value : Constant)
  | matchSequence
  | matchMapping (keys : Nat) (rest : Option String)
  | matchClass (patterns : Nat) (names : List String)
  | matchStar (name : Option String)
  | matchAs (name : Option String)
  | matchOr
deriving DecidableEq, Repr

structure Span where
  first : Nat
  last : Nat
deriving DecidableEq, Repr

inductive Node
  | mk (form : Form) (span : Span) (children : List Node)
deriving Repr

mutual

def Node.depth : Node → Nat
  | .mk _ _ children => Node.depths children + 1

def Node.depths : List Node → Nat
  | [] => 0
  | n :: rest => max n.depth (Node.depths rest)

end

namespace Node

def form : Node → Form
  | mk f _ _ => f

def span : Node → Span
  | mk _ s _ => s

def children : Node → List Node
  | mk _ _ cs => cs

def leaf (form : Form) (span : Span) : Node := mk form span []

instance : Inhabited Node := ⟨leaf .pass ⟨0, 0⟩⟩

def isSpread (n : Node) : Bool :=
  match n.form with
  | .starred _ => true
  | _ => false

def bases (n : Node) : List Node :=
  match n.form with
  | .classDef _ bases _ _ => n.children.take bases
  | _ => []

def body (n : Node) : List Node :=
  match n.form with
  | .classDef _ bases keywords body => (n.children.drop (bases + keywords)).take body
  | .function _ _ body _ => (n.children.drop 1).take body
  | .module => n.children
  | _ => []

def decorators (n : Node) : List Node :=
  match n.form with
  | .classDef _ bases keywords body => n.children.drop (bases + keywords + body)
  | .function _ _ body decorators => (n.children.drop (1 + body)).take decorators
  | _ => []

def returns (n : Node) : Option Node :=
  match n.form with
  | .function _ _ body decorators => (n.children.drop (1 + body + decorators)).head?
  | _ => none

def params (n : Node) : Option Node :=
  match n.form with
  | .function .. => n.children.head?
  | _ => none

def plainParams (n : Node) : List Node :=
  match n.form with
  | .params shape => (n.children.drop shape.positionalOnly).take shape.plain
  | _ => []

def paramDefaults (n : Node) : List Node :=
  match n.form with
  | .params shape =>
    n.children.drop (shape.positionalOnly + shape.plain + (if shape.hasRest then 1 else 0)
      + shape.keywordOnly + shape.keywordDefaults.count true + (if shape.hasKeywordRest then 1 else 0))
  | _ => []

def paramName? (n : Node) : Option String :=
  match n.form with
  | .param name => some name
  | _ => none

def targets (n : Node) : List Node :=
  match n.form with
  | .assign count => n.children.take count
  | .annAssign => n.children.take 1
  | _ => []

def storedName? (n : Node) : Option String :=
  match n.form with
  | .name id .store => some id
  | _ => none

end Node

end CodeAtlas.Script

namespace CodeAtlas.Script.Walk

def maxSteps : Nat := 993

def nodeSteps : Nat := 5

def isTooDeep (depth : Nat) : Bool := decide (maxSteps < depth + nodeSteps)

def enter (depth : Nat) : Except Fault Unit :=
  if isTooDeep depth then .error (.tooDeep "") else .ok ()

mutual

/-- The depth that a walk reaches from a depth on. It takes the given steps to what is below a node,
or passes that over. -/
def reach (steps? : Form → Option Nat) (depth : Nat) : Node → Nat
  | .mk form _ children =>
    match steps? form with
    | some steps => reachAll steps? (depth + steps) (depth + nodeSteps) children
    | none => depth + nodeSteps

def reachAll (steps? : Form → Option Nat) (depth reached : Nat) : List Node → Nat
  | [] => reached
  | n :: rest => reachAll steps? depth (max reached (reach steps? depth n)) rest

end

end CodeAtlas.Script.Walk

namespace CodeAtlas.Script

namespace Docstring

/-- Tabs widened to multiples of eight columns. -/
def widenTabs : (column : Nat) → List Char → List Char
  | _, [] => []
  | column, c :: rest =>
    if c = '\t' then
      let width := 8 - column % 8
      List.replicate width ' ' ++ widenTabs (column + width) rest
    else if c = '\n' ∨ c = '\r' then c :: widenTabs 0 rest
    else c :: widenTabs (column + 1) rest

def linesOf : List Char → List (List Char)
  | [] => [[]]
  | c :: rest =>
    match linesOf rest with
    | [] => [[c]]
    | line :: more => if c = '\n' then [] :: line :: more else (c :: line) :: more

def indent? (line : List Char) : Option Nat :=
  if line.all Text.isBlank then none else some (line.takeWhile Text.isBlank).length

/-- The least indentation of lines that have text. -/
def margin? (lines : List (List Char)) : Option Nat :=
  lines.foldl (fun acc line ↦
    match acc, indent? line with
    | some m, some n => some (min m n)
    | none, n => n
    | m, none => m) none

def dropEmptyEnds (lines : List (List Char)) : List (List Char) :=
  let kept := (lines.reverse.dropWhile List.isEmpty).reverse
  kept.dropWhile List.isEmpty

def clean (text : String) : String :=
  match linesOf (widenTabs 0 text.toList) with
  | [] => ""
  | first :: rest =>
    let rest :=
      match margin? rest with
      | some m => rest.map (List.drop m)
      | none => rest
    let lines := dropEmptyEnds (first.dropWhile Text.isBlank :: rest)
    String.intercalate "\n" (lines.map String.ofList)

end Docstring

def Node.docstring? (n : Node) : Option String :=
  match n.body with
  | .mk .expr _ [.mk (.constant (.text s _)) _ _] :: _ => some (Docstring.clean s)
  | _ => none

end CodeAtlas.Script
