import CodeAtlas.Script.Expression

/-!
# Patterns and statements

The grammar of the patterns in the cases of a `match` statement, that of statements, and the reading
of a whole source text. Blocks nest statements, so each compound statement gets the reader of a
block; `statements` ties the knot.
-/

namespace CodeAtlas.Script.Grammar

open Reader

def captureName : Reader String := do
  guard !((← peek).isWord "_")
  let id ← name
  guard !((← atOp ".") || (← atOp "(") || (← atOp "="))
  return id

/-- A dotted name, with whether it has a dot. -/
def dottedExpr : Reader (Node × Bool) := do
  let line ← lineHere
  let id ← name
  let first ← nodeFrom line (.name id .load) []
  let rest ← many (do
    op "."
    let attr ← name
    let last ← lineBehind
    return (attr, last))
  return (rest.foldl (fun n (attr, last) ↦ .mk (.attribute attr .load) ⟨line, last⟩ [n]) first, !rest.isEmpty)

def isImaginary (n : Node) : Bool :=
  match n.form with
  | .constant (.imaginary _) => true
  | _ => false

def numberExpr : Reader Node := do
  let t ← kind .number
  let c ← ofOption (Literal.number t.text)
  nodeFrom t.line (.constant c) []

/-- A number with an optional sign, to which an imaginary one may be added. -/
def signedNumber : Reader Node := do
  let line ← lineHere
  let minus ← tryOp "-"
  let n ← numberExpr
  let real ← if minus then nodeFrom line (.unaryOp "USub") [n] else Reader.pure n
  let plus ← atOp "+"
  let less ← atOp "-"
  if plus || less then
    guard !(isImaginary n)
    let _ ← next
    let m ← numberExpr
    guard (isImaginary m)
    nodeFrom line (.binOp (if plus then "Add" else "Sub")) [real, m]
  else return real

def literalExpr (r : Level) : Reader Node := do
  let t ← peek
  match t.kind with
  | .string => strings r
  | .number => signedNumber
  | .operator => signedNumber
  | _ => fail

def singleton? (text : String) : Option Constant :=
  if text == "None" then some .none
  else if text == "True" then some (.bool true)
  else if text == "False" then some (.bool false)
  else none

def mappingKey (r : Level) : Reader Node := do
  let t ← peek
  match t.kind with
  | .keyword =>
    let c ← ofOption (singleton? t.text)
    let _ ← next
    nodeFrom t.line (.constant c) []
  | .name =>
    let (n, dotted) ← dottedExpr
    guard dotted
    return n
  | _ => literalExpr r

/-- An item of a sequence: a pattern, or one that takes what is left. -/
def starPattern (pattern : Reader Node) : Reader Node := do
  let line ← lineHere
  if ← tryOp "*" then
    let t ← peek
    if t.isWord "_" then
      let _ ← next
      nodeFrom line (.matchStar none) []
    else
      let id ← captureName
      nodeFrom line (.matchStar (some id)) []
  else pattern

def isStarPattern (n : Node) : Bool :=
  match n.form with
  | .matchStar _ => true
  | _ => false

def roundPattern (pattern : Reader Node) : Reader Node := do
  let line ← lineHere
  op "("
  if ← tryOp ")" then nodeFrom line .matchSequence []
  else
    let first ← starPattern pattern
    if ← atOp "," then
      let rest ← many (do op ","; starPattern pattern)
      let _ ← tryOp ","
      op ")"
      nodeFrom line .matchSequence (first :: rest)
    else
      guard !(isStarPattern first)
      op ")"
      return first

def squarePattern (pattern : Reader Node) : Reader Node := do
  let line ← lineHere
  op "["
  if ← tryOp "]" then nodeFrom line .matchSequence []
  else
    let (items, _) ← commaItems (starPattern pattern)
    op "]"
    nodeFrom line .matchSequence items

/-- An entry of a mapping pattern, or the name that takes the rest. -/
def mappingItem (r : Level) (pattern : Reader Node) : Reader (Except String (Node × Node)) := do
  if ← tryOp "**" then
    let id ← captureName
    return .error id
  else
    let k ← mappingKey r
    op ":"
    let p ← pattern
    return .ok (k, p)

/-- The rest of a mapping may only be taken by the last item. -/
def mappingParts : List (Except String (Node × Node)) → Option (List (Node × Node) × Option String)
  | [] => some ([], none)
  | [.error id] => some ([], some id)
  | .error _ :: _ => none
  | .ok e :: rest => (mappingParts rest).map fun (es, id) ↦ (e :: es, id)

def curlyPattern (r : Level) (pattern : Reader Node) : Reader Node := do
  let line ← lineHere
  op "\x7b"
  if ← tryOp "\x7d" then nodeFrom line (.matchMapping 0 none) []
  else
    let first ← mappingItem r pattern
    let rest ← many (do op ","; mappingItem r pattern)
    let _ ← tryOp ","
    op "\x7d"
    let (es, id) ← ofOption (mappingParts (first :: rest))
    nodeFrom line (.matchMapping es.length id) (es.map Prod.fst ++ es.map Prod.snd)

/-- An argument of a class pattern, with its name if it has one. -/
def classItem (pattern : Reader Node) : Reader (Option String × Node) := do
  let t ← peek
  let u ← peekSecond
  if t.kind == .name && u.any fun u ↦ u.kind == .operator && u.text == "=" then
    let id ← name
    op "="
    let p ← pattern
    return (some id, p)
  else
    let p ← pattern
    return (none, p)

def namedLast (items : List (Option String × Node)) : Bool :=
  (items.dropWhile fun e ↦ e.1.isNone).all fun e ↦ e.1.isSome

def classPattern (pattern : Reader Node) (line : Nat) (cls : Node) : Reader Node := do
  op "("
  if ← tryOp ")" then nodeFrom line (.matchClass 0 []) [cls]
  else
    let first ← classItem pattern
    let rest ← many (do op ","; classItem pattern)
    let _ ← tryOp ","
    op ")"
    let items := first :: rest
    guard (namedLast items)
    let plain := items.filter fun e ↦ e.1.isNone
    nodeFrom line (.matchClass plain.length (items.filterMap Prod.fst)) (cls :: items.map Prod.snd)

/-- A pattern that stands without operators. -/
def closedPattern (r : Level) (pattern : Reader Node) : Reader Node := do
  let t ← peek
  match t.kind with
  | .number =>
    let n ← signedNumber
    nodeFrom t.line .matchValue [n]
  | .string =>
    let n ← strings r
    nodeFrom t.line .matchValue [n]
  | .keyword =>
    let c ← ofOption (singleton? t.text)
    let _ ← next
    nodeFrom t.line (.matchSingleton c) []
  | .name =>
    if t.isWord "_" then
      let _ ← next
      nodeFrom t.line (.matchAs none) []
    else
      let (n, dotted) ← dottedExpr
      if ← atOp "(" then classPattern pattern t.line n
      else
        guard !(← atOp "=")
        match n.form, dotted with
        | .name id _, false => nodeFrom t.line (.matchAs (some id)) []
        | _, _ => nodeFrom t.line .matchValue [n]
  | .operator =>
    if t.text == "(" then roundPattern pattern
    else if t.text == "[" then squarePattern pattern
    else if t.text == "\x7b" then curlyPattern r pattern
    else if t.text == "-" then
      let n ← signedNumber
      nodeFrom t.line .matchValue [n]
    else fail
  | _ => fail

/-- A pattern: alternatives, which may be bound to a name. -/
def patternStep (r : Level) (pattern : Reader Node) : Reader Node := do
  let line ← lineHere
  let first ← closedPattern r pattern
  let rest ← many (do op "|"; closedPattern r pattern)
  let n ← if rest.isEmpty then Reader.pure first else nodeFrom line .matchOr (first :: rest)
  if ← tryKeyword "as" then
    let id ← captureName
    nodeFrom line (.matchAs (some id)) [n]
  else return n

/-- Patterns that nest at most `depth` deep. -/
def pattern (r : Level) : (depth : Nat) → Reader Node
  | 0 => fail
  | depth + 1 => fun s ↦ patternStep r (pattern r depth) s

/-- The pattern of a case, which may be a sequence without brackets. -/
def casePattern (r : Level) (depth : Nat) : Reader Node := do
  let line ← lineHere
  let (items, comma) ← commaItems (starPattern (pattern r depth))
  match items, comma with
  | [n], false =>
    guard !(isStarPattern n)
    return n
  | ns, _ => nodeFrom line .matchSequence ns
open Reader

def augmented : List (String × String) :=
  [("+=", "Add"), ("-=", "Sub"), ("*=", "Mult"), ("@=", "MatMult"), ("/=", "Div"), ("%=", "Mod"),
   ("&=", "BitAnd"), ("|=", "BitOr"), ("^=", "BitXor"), ("<<=", "LShift"), (">>=", "RShift"),
   ("**=", "Pow"), ("//=", "FloorDiv")]

def assigned (r : Level) : Reader Node := do
  if ← atKeyword "yield" then yieldExpr r else starExpressions r

/-- The places and the value of an assignment, after its first place. -/
def assignRest (r : Level) (line : Nat) : (steps : Nat) → (places : List Node) → Reader Node
  | 0, _ => fail
  | steps + 1, places => do
    op "="
    let value ← assigned r
    if ← atOp "=" then
      let place ← ofOption (asPlace .store true value)
      assignRest r line steps (place :: places)
    else nodeFrom line (.assign places.length) (places.reverse ++ [value])

/-- A statement that starts with an expression: an assignment of one of the three kinds, or the
expression alone. -/
def expressionStatement (r : Level) : Reader Node := do
  let line ← lineHere
  let n ← starExpressions r
  let t ← peek
  if t.kind == .operator && t.text == "=" then
    let place ← ofOption (asPlace .store true n)
    fun s ↦ assignRest r line (s.left + 1) [place] s
  else if t.kind == .operator && t.text == ":" then
    let place ← ofOption (asSinglePlace n)
    op ":"
    let annotation ← r.expression
    if ← tryOp "=" then
      let value ← assigned r
      nodeFrom line .annAssign [place, annotation, value]
    else nodeFrom line .annAssign [place, annotation]
  else
    match (if t.kind == .operator then augmented.lookup t.text else none) with
    | some word =>
      let place ← ofOption (asSinglePlace n)
      let _ ← next
      let value ← assigned r
      nodeFrom line (.augAssign word) [place, value]
    | none => nodeFrom line .expr [n]

def dottedName : Reader String := do
  let first ← name
  let rest ← many (do op "."; name)
  return String.intercalate "." (first :: rest)

def aliasOf (source : Reader String) : Reader Alias := do
  let id ← source
  if ← tryKeyword "as" then
    let bound ← name
    return ⟨id, some bound⟩
  else return ⟨id, none⟩

def importStatement : Reader Node := do
  let line ← lineHere
  keyword "import"
  let names ← commaList (aliasOf dottedName)
  nodeFrom line (.import_ names) []

/-- How many steps up the dots before a source stand for. -/
def dots : Reader Nat := do
  let t ← kind .operator
  if t.text == "." then return 1
  else if t.text == "..." then return 3
  else fail

def importedNames : Reader (List Alias) := do
  if ← tryOp "*" then return [⟨"*", none⟩]
  else if ← tryOp "(" then
    let names ← commaList (aliasOf name)
    let _ ← tryOp ","
    op ")"
    return names
  else
    let names ← commaList (aliasOf name)
    guard !(← atOp ",")
    return names

def importFromStatement : Reader Node := do
  let line ← lineHere
  keyword "from"
  let steps ← many dots
  let source ← optional dottedName
  guard (source.isSome || !steps.isEmpty)
  keyword "import"
  let names ← importedNames
  nodeFrom line (.importFrom source names (steps.foldl (· + ·) 0)) []

def returnStatement (r : Level) : Reader Node := do
  let line ← lineHere
  keyword "return"
  let value ← optional (starExpressions r)
  nodeFrom line .return_ value.toList

def raiseStatement (r : Level) : Reader Node := do
  let line ← lineHere
  keyword "raise"
  match ← optional r.expression with
  | none => nodeFrom line .raise []
  | some n =>
    if ← tryKeyword "from" then
      let cause ← r.expression
      nodeFrom line .raise [n, cause]
    else nodeFrom line .raise [n]

def deleteStatement (r : Level) : Reader Node := do
  let line ← lineHere
  keyword "del"
  let (items, _) ← commaItems r.primary
  let places ← ofOption (asPlaces .delete false items)
  nodeFrom line .delete places

def assertStatement (r : Level) : Reader Node := do
  let line ← lineHere
  keyword "assert"
  let test ← r.expression
  if ← tryOp "," then
    let note ← r.expression
    nodeFrom line .assert [test, note]
  else nodeFrom line .assert [test]

def namesStatement (word : String) (form : List String → Form) : Reader Node := do
  let line ← lineHere
  keyword word
  let names ← commaList name
  nodeFrom line (form names) []

def wordStatement (word : String) (form : Form) : Reader Node := do
  let line ← lineHere
  keyword word
  nodeFrom line form []

def simpleStatement (r : Level) : Reader Node := do
  let t ← peek
  if t.kind == .keyword then
    match t.text with
    | "return" => returnStatement r
    | "import" => importStatement
    | "from" => importFromStatement
    | "raise" => raiseStatement r
    | "pass" => wordStatement "pass" .pass
    | "del" => deleteStatement r
    | "yield" =>
      let n ← yieldExpr r
      nodeFrom t.line .expr [n]
    | "assert" => assertStatement r
    | "break" => wordStatement "break" .break
    | "continue" => wordStatement "continue" .continue
    | "global" => namesStatement "global" .global
    | "nonlocal" => namesStatement "nonlocal" .nonlocal
    | _ => expressionStatement r
  else expressionStatement r

def simpleStatements (r : Level) : Reader (List Node) := do
  let first ← simpleStatement r
  let rest ← many (do op ";"; simpleStatement r)
  let _ ← tryOp ";"
  newline
  return first :: rest

/-- An indented block, or simple statements on the same line. -/
def blockOf (r : Level) (body : Reader (List Node)) : Reader (List Node) := do
  let t ← peek
  if t.kind == .newline then
    newline
    let _ ← kind .indent
    let ns ← body
    let _ ← kind .dedent
    return ns
  else simpleStatements r

def suite (r : Level) (body : Reader (List Node)) : Reader (List Node) := do
  op ":"
  blockOf r body

def elseBlock (r : Level) (body : Reader (List Node)) : Reader (List Node) := do
  if ← tryKeyword "else" then suite r body else return []

/-- An `if` statement from its word on, which is `if` or `elif`. -/
def ifRest (r : Level) (body : Reader (List Node)) : (steps : Nat) → Reader Node
  | 0 => fail
  | steps + 1 => do
    let line ← lineHere
    let _ ← next
    let test ← named r
    let ns ← suite r body
    if ← atKeyword "elif" then
      let other ← ifRest r body steps
      nodeFrom line (.if_ ns.length) (test :: ns ++ [other])
    else
      let other ← elseBlock r body
      nodeFrom line (.if_ ns.length) (test :: ns ++ other)

def whileStatement (r : Level) (body : Reader (List Node)) : Reader Node := do
  let line ← lineHere
  keyword "while"
  let test ← named r
  let ns ← suite r body
  let other ← elseBlock r body
  nodeFrom line (.while_ ns.length) (test :: ns ++ other)

def forStatement (r : Level) (body : Reader (List Node)) (line : Nat) (isAsync : Bool) : Reader Node := do
  keyword "for"
  let target ← starTargets r
  keyword "in"
  let source ← starExpressions r
  let ns ← suite r body
  let other ← elseBlock r body
  nodeFrom line (.for_ isAsync ns.length) (target :: source :: ns ++ other)

def withItem (r : Level) : Reader Node := do
  let line ← lineHere
  let n ← r.expression
  let target : Reader Node := do
    keyword "as"
    let place ← starTarget r
    guard ((← atOp ",") || (← atOp ")") || (← atOp ":"))
    nodeFrom line .withItem [n, place]
  target.orElse (nodeFrom line .withItem [n])

/-- The items of a `with` statement up to its colon, in brackets or without. -/
def withItems (r : Level) : Reader (List Node) :=
  let bracketed : Reader (List Node) := do
    op "("
    let items ← commaList (withItem r)
    let _ ← tryOp ","
    op ")"
    op ":"
    return items
  let plain : Reader (List Node) := do
    let items ← commaList (withItem r)
    op ":"
    return items
  bracketed.orElse plain

def withStatement (r : Level) (body : Reader (List Node)) (line : Nat) (isAsync : Bool) : Reader Node := do
  keyword "with"
  let items ← withItems r
  let ns ← blockOf r body
  nodeFrom line (.with_ isAsync items.length) (items ++ ns)

/-- A handler of a `try` statement; `star` tells that it takes groups. -/
def handler (r : Level) (body : Reader (List Node)) (star : Bool) : Reader Node := do
  let line ← lineHere
  keyword "except"
  if star then op "*" else guard !(← atOp "*")
  let what ← if ← atOp ":" then Reader.pure none else some <$> r.expression
  guard (what.isSome || !star)
  let bound ← if what.isSome && (← atKeyword "as") then do
      keyword "as"
      some <$> name
    else Reader.pure none
  let ns ← suite r body
  nodeFrom line (.handler bound) (what.toList ++ ns)

def tryStatement (r : Level) (body : Reader (List Node)) : Reader Node := do
  let line ← lineHere
  keyword "try"
  let ns ← suite r body
  let u ← peekSecond
  let star := (← atKeyword "except") && u.any fun u ↦ u.kind == .operator && u.text == "*"
  let handlers ← many (handler r body star)
  let other ← if handlers.isEmpty then Reader.pure [] else elseBlock r body
  let last ← if ← tryKeyword "finally" then some <$> suite r body else Reader.pure none
  guard (!handlers.isEmpty || last.isSome)
  nodeFrom line (.try_ star) (ns ++ handlers ++ other ++ last.getD [])

def decorator (r : Level) : Reader Node := do
  op "@"
  let n ← named r
  newline
  return n

def functionDef (r : Level) (body : Reader (List Node)) (decorators : List Node) (line : Nat)
    (isAsync : Bool) : Reader Node := do
  keyword "def"
  let id ← name
  op "("
  let ps ← paramList r true (atOp ")")
  op ")"
  let result ← if ← tryOp "->" then some <$> r.expression else Reader.pure none
  let ns ← suite r body
  nodeFrom line (.function id isAsync ns.length decorators.length)
    (ps :: ns ++ decorators ++ result.toList)

def classDef (r : Level) (body : Reader (List Node)) (decorators : List Node) : Reader Node := do
  let line ← lineHere
  keyword "class"
  let id ← name
  let (bases, keywords) ← if ← atOp "(" then arguments r false else Reader.pure ([], [])
  let ns ← suite r body
  nodeFrom line (.classDef id bases.length keywords.length ns.length)
    (bases ++ keywords ++ ns ++ decorators)

/-- What follows the word `async`, or stands without it. -/
def asyncStatement (r : Level) (body : Reader (List Node)) : Reader Node := do
  let line ← lineHere
  keyword "async"
  if ← atKeyword "def" then functionDef r body [] line true
  else if ← atKeyword "with" then withStatement r body line true
  else forStatement r body line true

def decorated (r : Level) (body : Reader (List Node)) : Reader Node := do
  let decorators ← many1 (decorator r)
  let line ← lineHere
  if ← atKeyword "class" then classDef r body decorators
  else
    let isAsync ← tryKeyword "async"
    functionDef r body decorators line isAsync

def subject (r : Level) : Reader Node := do
  let line ← lineHere
  let (items, comma) ← commaItems (starNamed r)
  match items, comma with
  | [n], false =>
    guard !n.isSpread
    return n
  | ns, _ => nodeFrom line (.tuple .load) ns

def caseBlock (r : Level) (body : Reader (List Node)) (depth : Nat) : Reader Node := do
  let line ← lineHere
  word "case"
  let p ← casePattern r depth
  let condition ← if ← tryKeyword "if" then some <$> named r else Reader.pure none
  let ns ← suite r body
  nodeFrom line .matchCase (p :: condition.toList ++ ns)

def matchStatement (r : Level) (body : Reader (List Node)) (depth : Nat) : Reader Node := do
  let line ← lineHere
  word "match"
  let n ← subject r
  op ":"
  newline
  let _ ← kind .indent
  let cases ← many1 (caseBlock r body depth)
  let _ ← kind .dedent
  nodeFrom line .match_ (n :: cases)

/-- A compound statement, or simple statements on one line. -/
def statement (r : Level) (body : Reader (List Node)) (depth : Nat) : Reader (List Node) := do
  let t ← peek
  let one (p : Reader Node) : Reader (List Node) := do
    let n ← p
    return [n]
  match t.kind with
  | .keyword =>
    match t.text with
    | "if" => one fun s ↦ ifRest r body (s.left + 1) s
    | "class" => one (classDef r body [])
    | "def" => one (functionDef r body [] t.line false)
    | "async" => one (asyncStatement r body)
    | "with" => one (withStatement r body t.line false)
    | "for" => one (forStatement r body t.line false)
    | "try" => one (tryStatement r body)
    | "while" => one (whileStatement r body)
    | _ => simpleStatements r
  | .operator =>
    if t.text == "@" then one (decorated r body) else simpleStatements r
  | .name =>
    if t.isWord "match" then (one (matchStatement r body depth)).orElse (simpleStatements r)
    else simpleStatements r
  | _ => simpleStatements r

/-- One statement or more, with blocks that nest at most `depth` deep. -/
def statements (r : Level) (patterns : Nat) : (depth : Nat) → Reader (List Node)
  | 0 => fail
  | depth + 1 => fun s ↦ (many1 (statement r (statements r patterns depth) patterns) s).map fun (ns, t) ↦
      (ns.flatten, t)

def wholeText (r : Level) (depth : Nat) : Reader Node := do
  let t ← peek
  let ns ← if t.kind == .stop then Reader.pure [] else statements r depth depth
  let _ ← kind .stop
  nodeFrom 1 .module ns

end CodeAtlas.Script.Grammar

namespace CodeAtlas.Script

/-- The syntax tree of a source text, if it is valid. -/
def tree? (source : String) : Option Node :=
  match tokens source 1 with
  | none => none
  | some ts =>
    let depth := source.length + 2
    (Grammar.wholeText (level depth) depth (.ofTokens ts)).map Prod.fst

def maxDepth : Nat := 2970

def parse (source : String) : Except Fault Node :=
  match tree? source with
  | some tree =>
    if maxDepth < tree.depth then .error (.tooDeep "during ast construction") else .ok tree
  | none => .error .malformedSource

end CodeAtlas.Script
