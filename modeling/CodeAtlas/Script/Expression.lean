import CodeAtlas.Script.Literal

/-!
# Expressions

The grammar of expressions. Each rule is a reader that gets the readers of the rules it nests in a
`Level`; `level` ties the knot, once for each depth of nesting.
-/

namespace CodeAtlas.Script

open Reader

/-- The readers that a rule of expressions nests. -/
structure Level where
  expression : Reader Node
  disjunction : Reader Node
  inversion : Reader Node
  bitwiseOr : Reader Node
  factor : Reader Node
  primary : Reader Node

/-! ## Places that are written -/

mutual

/-- An expression as a place of the given usage, if it can be one. Spreading is allowed only below
a list of places. -/
def asPlace (usage : Usage) (spread : Bool) : Node → Option Node
  | .mk (.name id _) span cs => some (.mk (.name id usage) span cs)
  | .mk (.attribute attr _) span cs => some (.mk (.attribute attr usage) span cs)
  | .mk (.subscript _) span cs => some (.mk (.subscript usage) span cs)
  | .mk (.tuple _) span cs => (asPlaces usage spread cs).map fun cs ↦ .mk (.tuple usage) span cs
  | .mk (.list _) span cs => (asPlaces usage spread cs).map fun cs ↦ .mk (.list usage) span cs
  | .mk (.starred _) span cs =>
    if spread then
      match cs with
      | [.mk (.starred _) _ _] => none
      | cs => (asPlaces usage spread cs).map fun cs ↦ .mk (.starred usage) span cs
    else none
  | _ => none

def asPlaces (usage : Usage) (spread : Bool) : List Node → Option (List Node)
  | [] => some []
  | n :: rest =>
    match asPlace usage spread n, asPlaces usage spread rest with
    | some n, some rest => some (n :: rest)
    | _, _ => none

end

def asSinglePlace (n : Node) : Option Node :=
  match n.form with
  | .name .. | .attribute .. | .subscript .. => asPlace .store false n
  | _ => none

namespace Grammar

/-! ## Lists of expressions -/

/-- `NAME := value`. -/
def walrus (r : Level) : Reader Node := do
  let line ← lineHere
  let id ← name
  let behind ← lineBehind
  op ":="
  let value ← r.expression
  nodeFrom line .namedExpr [.leaf (.name id .store) ⟨line, behind⟩, value]

/-- An expression that may bind a name, with whether it does so without brackets. -/
def namedWith (r : Level) : Reader (Node × Bool) := do
  let t ← peek
  let u ← peekSecond
  if t.kind == .name && u.any fun u ↦ u.kind == .operator && u.text == ":=" then
    let n ← walrus r
    return (n, true)
  else
    let n ← r.expression
    guard !(← atOp ":=")
    return (n, false)

def named (r : Level) : Reader Node := do
  let (n, _) ← namedWith r
  return n

def spreadOf (value : Reader Node) : Reader Node := do
  let line ← lineHere
  op "*"
  let n ← value
  nodeFrom line (.starred .load) [n]

/-- An item of a display: an expression that may bind a name, or a spread one. -/
def starNamed (r : Level) : Reader Node := do
  if ← atOp "*" then spreadOf r.bitwiseOr else named r

def starExpression (r : Level) : Reader Node := do
  if ← atOp "*" then spreadOf r.bitwiseOr else r.expression

/-- Items divided by commas, with an optional comma at the end: the items, and whether there was a
comma at all. -/
def commaItems (item : Reader Node) : Reader (List Node × Bool) := do
  let first ← item
  let rest ← many (do op ","; item)
  let trailing ← tryOp ","
  return (first :: rest, trailing || !rest.isEmpty)

/-- One expression, or a tuple of several. -/
def starExpressions (r : Level) : Reader Node := do
  let line ← lineHere
  let (items, comma) ← commaItems (starExpression r)
  match items, comma with
  | [n], false => return n
  | ns, _ => nodeFrom line (.tuple .load) ns

def yieldExpr (r : Level) : Reader Node := do
  let line ← lineHere
  keyword "yield"
  if ← tryKeyword "from" then
    let n ← r.expression
    nodeFrom line .yieldFrom [n]
  else
    match ← optional (starExpressions r) with
    | some n => nodeFrom line .yield [n]
    | none => nodeFrom line .yield []

/-! ## Comprehensions -/

/-- One place that is written, which may be spread. -/
def starTarget (r : Level) : Reader Node := do
  if ← atOp "*" then
    let line ← lineHere
    op "*"
    let n ← r.primary
    let n ← nodeFrom line (.starred .load) [n]
    ofOption (asPlace .store true n)
  else
    let n ← r.primary
    ofOption (asPlace .store true n)

def starTargets (r : Level) : Reader Node := do
  let line ← lineHere
  let (items, comma) ← commaItems (starTarget r)
  match items, comma with
  | [n], false => return n
  | ns, _ => nodeFrom line (.tuple .store) ns

def forClause (r : Level) : Reader Node := do
  let line ← lineHere
  let isAsync ← tryKeyword "async"
  keyword "for"
  let target ← starTargets r
  keyword "in"
  let source ← r.disjunction
  let conditions ← many (do keyword "if"; r.disjunction)
  nodeFrom line (.comprehension isAsync) (target :: source :: conditions)

def forClauses (r : Level) : Reader (List Node) :=
  many1 (forClause r)

def atFor : Reader Bool := do
  let plain ← atKeyword "for"
  let async ← atKeyword "async"
  return plain || async

/-! ## Calls and subscripts -/

/-- What has been read of an argument list: positional arguments and named ones, both in reverse,
and whether a mapping has been spread. -/
structure Args where
  positional : List Node
  named : List Node
  mapping : Bool

/-- One argument. After a named argument no plain one may follow, and after a spread mapping no
spread list. -/
def argument (r : Level) (a : Args) : Reader Args := do
  let line ← lineHere
  let t ← peek
  let u ← peekSecond
  if t.kind == .operator && t.text == "*" then
    guard !a.mapping
    let n ← spreadOf r.expression
    return { a with positional := n :: a.positional }
  else if t.kind == .operator && t.text == "**" then
    op "**"
    let value ← r.expression
    let n ← nodeFrom line (.keyword none) [value]
    return { a with named := n :: a.named, mapping := true }
  else if t.kind == .name && u.any fun u ↦ u.kind == .operator && u.text == "=" then
    let id ← name
    op "="
    let value ← r.expression
    let n ← nodeFrom line (.keyword (some id)) [value]
    return { a with named := n :: a.named }
  else
    guard a.named.isEmpty
    let n ← named r
    guard !(← atOp "=")
    return { a with positional := n :: a.positional }

/-- The arguments after one of them; a comma may end the list. -/
def argumentsRest (r : Level) : (steps : Nat) → Args → Reader Args
  | 0, a => Reader.pure a
  | steps + 1, a => do
    if ← tryOp "," then
      if ← atOp ")" then return a
      else
        let a ← argument r a
        argumentsRest r steps a
    else return a

/-- The arguments between brackets: positional ones and named ones. Where `sole` holds, a generator
may stand alone, and the brackets are then its own. -/
def arguments (r : Level) (sole : Bool) : Reader (List Node × List Node) := do
  let line ← lineHere
  op "("
  if ← tryOp ")" then return ([], [])
  else
    let a ← argument r ⟨[], [], false⟩
    if sole && (← atFor) then
      match a.positional, a.named with
      | [n], [] =>
        guard !n.isSpread
        let clauses ← forClauses r
        op ")"
        let g ← nodeFrom line .generator (n :: clauses)
        return ([g], [])
      | _, _ => fail
    else
      let a ← (fun s ↦ argumentsRest r (s.left + 1) a s)
      op ")"
      return (a.positional.reverse, a.named.reverse)

/-- One part of a subscript: an expression, a spread one, or a slice. -/
def subscriptItem (r : Level) : Reader Node := do
  let line ← lineHere
  if ← atOp "*" then spreadOf r.expression
  else
    let (lower, bound) ←
      if ← atOp ":" then Reader.pure (none, false)
      else do
        let (n, bound) ← namedWith r
        Reader.pure (some n, bound)
    if (← atOp ":") && !bound then
      op ":"
      let stop ← optional r.expression
      let step ← if ← tryOp ":" then optional r.expression else Reader.pure none
      nodeFrom line (.slice lower.isSome stop.isSome step.isSome) (lower.toList ++ stop.toList ++ step.toList)
    else ofOption lower

def subscriptItems (r : Level) : Reader Node := do
  let line ← lineHere
  let (items, comma) ← commaItems (subscriptItem r)
  match items, comma with
  | [n], false => if n.isSpread then nodeFrom line (.tuple .load) [n] else return n
  | ns, _ => nodeFrom line (.tuple .load) ns

/-! ## Strings -/

/-- The value of a source text that stands in a formatted literal. -/
def embedded (r : Level) (source : String) (line : Nat) : Option Node :=
  match tokens ("(" ++ source ++ ")") line with
  | none => none
  | some ts => (starExpressions r (.ofTokens ts)).map Prod.fst

def joinTexts (marked : Bool) (span : Span) (pending : String) (done : List Node) : List Node :=
  if pending = "" then done else .leaf (.constant (.text pending marked)) span :: done

mutual

/-- The parts of a formatted literal in reverse, given the text that is still pending. -/
def joinPieces (r : Level) (marked : Bool) (span : Span) (pending : String) (done : List Node) :
    List Piece → Option (String × List Node)
  | [] => some (pending, done)
  | .text s :: rest => joinPieces r marked span (pending ++ s) done rest
  | .value source line echo conversion spec :: rest =>
    match embedded r source line, joinSpec r marked span spec with
    | some n, some format =>
      let done := joinTexts marked span (pending ++ echo.getD "") done
      let code : Int :=
        match conversion with
        | some c => c.toNat
        | none => -1
      joinPieces r marked span "" (.mk (.formatted code) span (n :: format.toList) :: done) rest
    | _, _ => none

def joinSpec (r : Level) (marked : Bool) (span : Span) : Option (List Piece) → Option (Option Node)
  | none => some none
  | some ps =>
    match joinPieces r marked span "" [] ps with
    | some (pending, done) =>
      some (some (.mk .joined span (joinTexts marked span pending done).reverse))
    | none => none

end

/-- Adds one literal to what stands before it. -/
def joinLiteral (r : Level) (marked : Bool) (span : Span) (acc : Option (String × List Node))
    (p : Literal.Parts) : Option (String × List Node) :=
  match acc with
  | none => none
  | some (pending, done) =>
    if p.formatted then
      match Format.ofBody p.raw p.body p.line with
      | some ps => joinPieces r marked span pending done ps
      | none => none
    else (Literal.plainText p.raw p.body).map fun s ↦ (pending ++ s, done)

def literalValue (r : Level) (ts : List Token) (span : Span) : Option Node :=
  let ps := ts.map Literal.parts
  if ps.all (·.bytes) then
    (ps.mapM fun p ↦ Literal.byteValue p.raw (p.body.length + 1) p.body []).map fun bs ↦
      .leaf (.constant (.bytes bs.flatten)) span
  else if ps.any (·.bytes) then none
  else
    let marked := (ps.head?.map (·.marked)).getD false
    match ps.foldl (joinLiteral r marked span) (some ("", [])) with
    | none => none
    | some (pending, done) =>
      if ps.any (·.formatted) then
        some (.mk .joined span (joinTexts marked span pending done).reverse)
      else some (.leaf (.constant (.text pending marked)) span)

def strings (r : Level) : Reader Node := do
  let line ← lineHere
  let ts ← many1 (kind .string)
  let last ← lineBehind
  ofOption (literalValue r ts ⟨line, last⟩)

/-! ## Atoms -/

def roundAtom (r : Level) : Reader Node := do
  let line ← lineHere
  op "("
  if ← tryOp ")" then nodeFrom line (.tuple .load) []
  else if ← atKeyword "yield" then
    let n ← yieldExpr r
    op ")"
    return n
  else
    let first ← starNamed r
    if ← atOp "," then
      let rest ← many (do op ","; starNamed r)
      let _ ← tryOp ","
      op ")"
      nodeFrom line (.tuple .load) (first :: rest)
    else
      guard !first.isSpread
      if ← atFor then
        let clauses ← forClauses r
        op ")"
        nodeFrom line .generator (first :: clauses)
      else
        op ")"
        return first

def squareAtom (r : Level) : Reader Node := do
  let line ← lineHere
  op "["
  if ← tryOp "]" then nodeFrom line (.list .load) []
  else
    let first ← starNamed r
    if (← atFor) && !first.isSpread then
      let clauses ← forClauses r
      op "]"
      nodeFrom line .listComp (first :: clauses)
    else
      let rest ← many (do op ","; starNamed r)
      let _ ← tryOp ","
      op "]"
      nodeFrom line (.list .load) (first :: rest)

/-- An entry of a dictionary: a key, if it has one, and a value. -/
def entry (r : Level) : Reader (Option Node × Node) := do
  if ← tryOp "**" then
    let n ← r.bitwiseOr
    return (none, n)
  else
    let k ← r.expression
    op ":"
    let v ← r.expression
    return (some k, v)

def dictFrom (line : Nat) (entries : List (Option Node × Node)) : Reader Node :=
  nodeFrom line (.dict (entries.map fun e ↦ e.1.isSome)) (entries.filterMap Prod.fst ++ entries.map Prod.snd)

def dictRest (r : Level) (line : Nat) (first : Option Node × Node) : Reader Node := do
  let rest ← many (do op ","; entry r)
  let _ ← tryOp ","
  op "\x7d"
  dictFrom line (first :: rest)

def curlyAtom (r : Level) : Reader Node := do
  let line ← lineHere
  op "\x7b"
  if ← tryOp "\x7d" then nodeFrom line (.dict []) []
  else if ← atOp "**" then
    let first ← entry r
    dictRest r line first
  else
    let starred ← atOp "*"
    let (first, bound) ←
      if starred then do
        let n ← spreadOf r.bitwiseOr
        Reader.pure (n, true)
      else namedWith r
    if (← atOp ":") && !bound then
      op ":"
      let value ← r.expression
      if ← atFor then
        let clauses ← forClauses r
        op "\x7d"
        nodeFrom line .dictComp (first :: value :: clauses)
      else dictRest r line (some first, value)
    else if (← atFor) && !starred then
      let clauses ← forClauses r
      op "\x7d"
      nodeFrom line .setComp (first :: clauses)
    else
      let rest ← many (do op ","; starNamed r)
      let _ ← tryOp ","
      op "\x7d"
      nodeFrom line .set (first :: rest)

def atom (r : Level) : Reader Node := do
  let t ← peek
  let constant (c : Constant) : Reader Node := do
    let _ ← next
    nodeFrom t.line (.constant c) []
  match t.kind with
  | .name =>
    let id ← name
    nodeFrom t.line (.name id .load) []
  | .number =>
    let c ← ofOption (Literal.number t.text)
    constant c
  | .string => strings r
  | .keyword =>
    if t.text == "True" then constant (.bool true)
    else if t.text == "False" then constant (.bool false)
    else if t.text == "None" then constant .none
    else fail
  | .operator =>
    if t.text == "(" then roundAtom r
    else if t.text == "[" then squareAtom r
    else if t.text == "\x7b" then curlyAtom r
    else if t.text == "..." then constant .ellipsis
    else fail
  | _ => fail

/-- One step of what is applied to an atom: an attribute, a call or a subscript. -/
def trailer (r : Level) (line : Nat) (n : Node) : Reader Node := do
  let t ← peek
  guard (t.kind == .operator)
  if t.text == "." then
    op "."
    let attr ← name
    nodeFrom line (.attribute attr .load) [n]
  else if t.text == "(" then
    let (positional, named) ← arguments r true
    nodeFrom line (.call positional.length) (n :: positional ++ named)
  else if t.text == "[" then
    op "["
    let index ← subscriptItems r
    op "]"
    nodeFrom line (.subscript .load) [n, index]
  else fail

def trailers (r : Level) (line : Nat) : (steps : Nat) → Node → Reader Node
  | 0, n => Reader.pure n
  | steps + 1, n => fun s ↦
    match trailer r line n s with
    | some (m, t) => trailers r line steps m t
    | none => some (n, s)

/-- An atom with what is applied to it. -/
def primary (r : Level) : Reader Node := do
  let line ← lineHere
  let n ← atom r
  fun s ↦ trailers r line (s.left + 1) n s

/-! ## Operators -/

def awaitPrimary (r : Level) : Reader Node := do
  let line ← lineHere
  if ← tryKeyword "await" then
    let n ← primary r
    nodeFrom line .await [n]
  else primary r

def power (r : Level) : Reader Node := do
  let line ← lineHere
  let n ← awaitPrimary r
  if ← tryOp "**" then
    let m ← r.factor
    nodeFrom line (.binOp "Pow") [n, m]
  else return n

def unaryOps : List (String × String) := [("+", "UAdd"), ("-", "USub"), ("~", "Invert")]

def factor (r : Level) : Reader Node := do
  let t ← peek
  match (if t.kind == .operator then unaryOps.lookup t.text else none) with
  | some word =>
    let _ ← next
    let n ← r.factor
    nodeFrom t.line (.unaryOp word) [n]
  | none => power r

/-- Operators of one precedence, which associate to the left. -/
def leftChain (ops : List (String × String)) (operand : Reader Node) : Reader Node := do
  let line ← lineHere
  let first ← operand
  let rest ← many (do
    let t ← kind .operator
    let word ← ofOption (ops.lookup t.text)
    let n ← operand
    let last ← lineBehind
    return (word, n, last))
  return rest.foldl (fun left (word, right, last) ↦ .mk (.binOp word) ⟨line, last⟩ [left, right]) first

def bitwiseOr (r : Level) : Reader Node :=
  leftChain [("|", "BitOr")] <| leftChain [("^", "BitXor")] <| leftChain [("&", "BitAnd")] <|
  leftChain [("<<", "LShift"), (">>", "RShift")] <| leftChain [("+", "Add"), ("-", "Sub")] <|
  leftChain [("*", "Mult"), ("/", "Div"), ("//", "FloorDiv"), ("%", "Mod"), ("@", "MatMult")] <| factor r

def comparisonOp : Reader String := do
  let t ← next
  match t.kind with
  | .operator =>
    ofOption ([("==", "Eq"), ("!=", "NotEq"), ("<=", "LtE"), ("<", "Lt"), (">=", "GtE"),
      (">", "Gt")].lookup t.text)
  | .keyword =>
    if t.text == "in" then return "In"
    else if t.text == "not" then
      keyword "in"
      return "NotIn"
    else if t.text == "is" then
      if ← tryKeyword "not" then return "IsNot" else return "Is"
    else fail
  | _ => fail

def comparison (r : Level) : Reader Node := do
  let line ← lineHere
  let first ← bitwiseOr r
  let rest ← many (do
    let word ← comparisonOp
    let n ← bitwiseOr r
    return (word, n))
  match rest with
  | [] => return first
  | _ => nodeFrom line (.compare (rest.map Prod.fst)) (first :: rest.map Prod.snd)

def inversion (r : Level) : Reader Node := do
  let line ← lineHere
  if ← tryKeyword "not" then
    let n ← r.inversion
    nodeFrom line (.unaryOp "Not") [n]
  else comparison r

/-- Operands of one of the two logical operators. -/
def logicChain (word form : String) (operand : Reader Node) : Reader Node := do
  let line ← lineHere
  let first ← operand
  let rest ← many (do keyword word; operand)
  match rest with
  | [] => return first
  | _ => nodeFrom line (.boolOp form) (first :: rest)

def disjunction (r : Level) : Reader Node :=
  logicChain "or" "Or" (logicChain "and" "And" (inversion r))

/-! ## Parameters -/

/-- Parameters as they are read: the groups in reverse. -/
structure Params where
  positionalOnly : List Node := []
  plain : List Node := []
  rest : Option Node := none
  keywordOnly : List Node := []
  keywordDefaults : List (Option Node) := []
  keywordRest : Option Node := none
  defaults : List Node := []
  /-- Whether a star has been read, after which all parameters are keyword-only. -/
  starred : Bool := false
  slashed : Bool := false

/-- A parameter with its annotation, where annotations are allowed. -/
def param (r : Level) (annotated spread : Bool) : Reader Node := do
  let line ← lineHere
  let id ← name
  if annotated && (← atOp ":") then
    op ":"
    let n ← if spread then starExpression r else r.expression
    nodeFrom line (.param id) [n]
  else nodeFrom line (.param id) []

/-- One item of a parameter list. The second result tells that nothing may follow. -/
def paramItem (r : Level) (annotated : Bool) (p : Params) : Reader (Params × Bool) := do
  let t ← peek
  if t.kind == .operator && t.text == "/" then
    guard (!p.slashed && !p.starred && !p.plain.isEmpty)
    op "/"
    return ({ p with positionalOnly := p.plain, plain := [], slashed := true }, false)
  else if t.kind == .operator && t.text == "*" then
    guard !p.starred
    op "*"
    if ← atOp "," then
      -- a bare star needs a keyword-only parameter after it
      let u ← peekSecond
      guard (u.any fun u ↦ u.kind == .name)
      return ({ p with starred := true }, false)
    else
      let n ← param r annotated true
      guard !(← atOp "=")
      return ({ p with rest := some n, starred := true }, false)
  else if t.kind == .operator && t.text == "**" then
    op "**"
    let n ← param r annotated false
    guard !(← atOp "=")
    return ({ p with keywordRest := some n }, true)
  else
    let n ← param r annotated false
    let value ← if ← tryOp "=" then some <$> r.expression else Reader.pure none
    if p.starred then
      return ({ p with
        keywordOnly := n :: p.keywordOnly
        keywordDefaults := value :: p.keywordDefaults }, false)
    else
      guard (value.isSome || p.defaults.isEmpty)
      return ({ p with plain := n :: p.plain, defaults := value.toList ++ p.defaults }, false)

def paramLoop (r : Level) (annotated : Bool) (closing : Reader Bool) : (steps : Nat) → Params → Reader Params
  | 0, p => Reader.pure p
  | steps + 1, p => do
    let (p, last) ← paramItem r annotated p
    if ← tryOp "," then
      if ← closing then return p
      else
        guard !last
        paramLoop r annotated closing steps p
    else
      guard (← closing)
      return p

/-- The parameter list up to what closes it, which stays. -/
def paramList (r : Level) (annotated : Bool) (closing : Reader Bool) : Reader Node := do
  let line ← optional lineHere
  let p ← if ← closing then Reader.pure {}
    else fun s ↦ paramLoop r annotated closing (s.left + 1) {} s
  let shape : ParamShape :=
    { positionalOnly := p.positionalOnly.length
      plain := p.plain.length
      hasRest := p.rest.isSome
      keywordOnly := p.keywordOnly.length
      keywordDefaults := p.keywordDefaults.reverse.map Option.isSome
      hasKeywordRest := p.keywordRest.isSome }
  nodeFrom (line.getD 0) (.params shape)
    (p.positionalOnly.reverse ++ p.plain.reverse ++ p.rest.toList ++ p.keywordOnly.reverse
      ++ p.keywordDefaults.reverse.filterMap id ++ p.keywordRest.toList ++ p.defaults.reverse)

def lambda (r : Level) : Reader Node := do
  let line ← lineHere
  keyword "lambda"
  let ps ← paramList r false (atOp ":")
  op ":"
  let body ← r.expression
  nodeFrom line .lambda [ps, body]

def expression (r : Level) : Reader Node := do
  if ← atKeyword "lambda" then lambda r
  else
    let line ← lineHere
    let n ← disjunction r
    if ← atKeyword "if" then
      let conditional : Reader Node := do
        keyword "if"
        let test ← disjunction r
        keyword "else"
        let other ← r.expression
        nodeFrom line .ifExp [test, n, other]
      conditional.orElse (Reader.pure n)
    else return n

end Grammar

open Grammar

/-- The readers of expressions that nest at most `depth` deep. -/
def level : (depth : Nat) → Level
  | 0 => ⟨fail, fail, fail, fail, fail, fail⟩
  | depth + 1 =>
    { expression := fun s ↦ Grammar.expression (level depth) s
      disjunction := fun s ↦ Grammar.disjunction (level depth) s
      inversion := fun s ↦ Grammar.inversion (level depth) s
      bitwiseOr := fun s ↦ Grammar.bitwiseOr (level depth) s
      factor := fun s ↦ Grammar.factor (level depth) s
      primary := fun s ↦ Grammar.primary (level depth) s }

end CodeAtlas.Script
