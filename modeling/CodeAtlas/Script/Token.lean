import CodeAtlas.Script.Node
import CodeAtlas.Text.Compatibility
import CodeAtlas.Text.Utf8

/-!
# Tokens of Python source

A source text becomes a list of tokens that ends in an end mark. Lines are joined inside brackets
and after a backslash, and a change of indentation becomes a token of its own. A text that no list
of tokens describes has none.

A reader takes tokens off a stream or refuses. The stream remembers the line on which the last
visible token ended, from which the span of every node follows. Repetition is bounded by the number
of tokens that are left.
-/

namespace CodeAtlas.Script

inductive TokenKind
  | name
  | keyword
  | number
  | string
  | operator
  | newline
  | indent
  | dedent
  | stop
deriving DecidableEq, Repr

structure Token where
  kind : TokenKind
  text : String
  line : Nat
  endLine : Nat
  /-- Whether the source spells the text just so; a name may be spelled in other characters. -/
  isVerbatim : Bool := true
deriving DecidableEq, Repr

def Token.isVisible (t : Token) : Bool :=
  match t.kind with
  | .newline | .indent | .dedent | .stop => false
  | _ => true

def Token.isWord (t : Token) (text : String) : Bool :=
  t.kind == .name && t.text == text && t.isVerbatim

def keywords : List String :=
  ["False", "None", "True", "and", "as", "assert", "async", "await", "break", "class", "continue",
   "def", "del", "elif", "else", "except", "finally", "for", "from", "global", "if", "import",
   "in", "is", "lambda", "nonlocal", "not", "or", "pass", "raise", "return", "try", "while", "with", "yield"]

def operators : List String :=
  ["**=", "...", "//=", "<<=", ">>=",
   "!=", "%=", "&=", "**", "*=", "+=", "-=", "->", "//", "/=", ":=", "<<", "<=", "<>", "==", ">=",
   ">>", "@=", "^=", "|=",
   "%", "&", "(", ")", "*", "+", ",", "-", ".", "/", ":", ";", "<", "=", ">", "@", "[", "]", "^",
   "\x7b", "|", "\x7d", "~"]

def maxBrackets : Nat := 200

def maxIndents : Nat := 99

namespace Lexer

/-- Characters that may stand in a name before it is checked: beyond ASCII, all. -/
def isNameChar (c : Char) : Bool := c.isAlphanum || c == '_' || c.toNat ≥ 128

def isNameStart (c : Char) : Bool := c.isAlpha || c == '_' || c.toNat ≥ 128

def isIdentifier (cs : List Char) : Bool :=
  match cs with
  | [] => false
  | c :: rest => Text.isIdentifierStart c && rest.all Text.isIdentifierPart

/-- Digits in which single low lines may stand between two of them: the digits and what follows. -/
def underscored (isDigit : Char → Bool) : List Char → Option (List Char × List Char)
  | [] => some ([], [])
  | '_' :: c :: rest =>
    if isDigit c then (underscored isDigit rest).map fun (ds, r) ↦ (c :: ds, r) else none
  | ['_'] => none
  | c :: rest =>
    if isDigit c then (underscored isDigit rest).map fun (ds, r) ↦ (c :: ds, r)
    else some ([], c :: rest)

/-- Whether a number may end here: before a word that can follow it in valid source, or before any
character that cannot be part of a name. -/
def numberEnds (rest : List Char) : Bool :=
  ["and", "else", "for", "if", "in", "is", "or", "not"].any (fun w ↦ w.toList.isPrefixOf rest)
    || !(rest.head?.any isNameChar)

def isHex (c : Char) : Bool := c.isDigit || ('a' ≤ c && c ≤ 'f') || ('A' ≤ c && c ≤ 'F')

def isOctal (c : Char) : Bool := '0' ≤ c && c ≤ '7'

def isBinary (c : Char) : Bool := c == '0' || c == '1'

/-- Digits in a base other than ten, after the letter that names it. -/
def basedNumber (isDigit : Char → Bool) (cs : List Char) : Option (List Char × List Char) := do
  let (ds, rest) ← underscored isDigit cs
  if ds.isEmpty || rest.head?.any Char.isDigit || !numberEnds rest then none else some (ds, rest)

/-- The exponent of a number, if one stands here. -/
def exponentPart (cs : List Char) : Option (List Char × List Char) :=
  match cs with
  | e :: rest =>
    if e == 'e' || e == 'E' then
      match rest with
      | s :: d :: more =>
        if s == '+' || s == '-' then
          if d.isDigit then
            (underscored Char.isDigit (d :: more)).map fun (ds, r) ↦ ('e' :: s :: ds, r)
          else none
        else if s.isDigit then
          (underscored Char.isDigit rest).map fun (ds, r) ↦ ('e' :: ds, r)
        else if numberEnds cs then some ([], cs) else none
      | [s] =>
        if s.isDigit then some (['e', s], [])
        else if numberEnds cs && !(s == '+' || s == '-') then some ([], cs) else none
      | [] => none
    else some ([], cs)
  | [] => some ([], [])

/-- What may follow the whole digits of a decimal number: places, an exponent, the mark of an
imaginary number. -/
def decimalTail (cs : List Char) : Option (List Char × List Char) := do
  let (places, rest) ←
    match cs with
    | '.' :: more =>
      if more.head?.any Char.isDigit then
        (underscored Char.isDigit more).map fun (ds, r) ↦ ('.' :: ds, r)
      else some (['.'], more)
    | _ => some ([], cs)
  let (power, rest) ← exponentPart rest
  match rest with
  | 'j' :: more => if numberEnds more then some (places ++ power ++ ['j'], more) else none
  | 'J' :: more => if numberEnds more then some (places ++ power ++ ['j'], more) else none
  | _ => if numberEnds rest then some (places ++ power, rest) else none

/-- A number at the start of a text: its characters without low lines, in lower case, and what
follows. -/
def scanNumber (cs : List Char) : Option (List Char × List Char) :=
  let based (letter : Char) (isDigit : Char → Bool) (rest : List Char) :=
    (basedNumber isDigit rest).map fun (ds, r) ↦ ('0' :: letter :: ds.map Char.toLower, r)
  match cs with
  | '0' :: 'x' :: rest | '0' :: 'X' :: rest => based 'x' isHex rest
  | '0' :: 'o' :: rest | '0' :: 'O' :: rest => based 'o' isOctal rest
  | '0' :: 'b' :: rest | '0' :: 'B' :: rest => based 'b' isBinary rest
  | '.' :: _ => decimalTail cs
  | _ => do
    let (whole, rest) ← underscored Char.isDigit cs
    let (tail, rest) ← decimalTail rest
    -- a whole number other than zero has no leading zero
    if tail.isEmpty && whole.head? == some '0' && whole.any (· != '0') then none
    else some (whole ++ tail, rest)

/-- The letters before the opening quote of a string, if a string starts here. -/
def stringLetters (cs : List Char) : Option (List Char) :=
  let isQuote (c : Char) : Bool := c == '"' || c == '\''
  match cs with
  | a :: b :: c :: _ =>
    let one := ['r', 'b', 'u', 'f'].contains a.toLower
    let two := [['b', 'r'], ['r', 'b'], ['f', 'r'], ['r', 'f']].contains [a.toLower, b.toLower]
    if one && isQuote b then some [a] else if two && isQuote c then some [a, b] else none
  | [a, b] => if ['r', 'b', 'u', 'f'].contains a.toLower && isQuote b then some [a] else none
  | _ => none

/-- The rest of a string up to its closing quote, where `count` closing quotes are needed and
`seen` have just been met. -/
def stringRest (quote : Char) (count : Nat) :
    (seen : Nat) → List Char → (done : List Char) → Option (List Char × List Char)
  | _, [], _ => none
  | seen, c :: rest, done =>
    if c = quote then
      if seen + 1 = count then some ((c :: done).reverse, rest)
      else stringRest quote count (seen + 1) rest (c :: done)
    else if c = '\\' then
      match rest with
      | [] => none
      | d :: more => stringRest quote count 0 more (d :: c :: done)
    else if count = 1 ∧ c = '\n' then none
    else stringRest quote count 0 rest (c :: done)

def scanString (cs : List Char) : Option (List Char × List Char) :=
  match cs with
  | a :: b :: c :: rest =>
    if a = b ∧ b = c then (stringRest a 3 0 rest []).map fun (s, r) ↦ (a :: b :: c :: s, r)
    else if a = b then some ([a, b], c :: rest)
    else (stringRest a 1 0 (b :: c :: rest) []).map fun (s, r) ↦ (a :: s, r)
  | [a, b] => if a = b then some ([a, b], []) else none
  | _ => none

/-- The width of leading blanks, with tabs to multiples of eight and with tabs as single steps, and
the width at which a first backslash stood. -/
structure Indentation where
  column : Nat := 0
  narrow : Nat := 0
  joined : Nat := 0

/-- Leading blanks of a line, joined lines included: the indentation, the rest, and how many lines
were joined. -/
def scanIndent (i : Indentation) (joined : Nat) : List Char → Option (Indentation × List Char × Nat)
  | ' ' :: rest =>
    scanIndent { i with column := i.column + 1, narrow := i.narrow + 1 } joined rest
  | '\t' :: rest =>
    scanIndent { i with column := (i.column / 8 + 1) * 8, narrow := i.narrow + 1 } joined rest
  | '\x0c' :: rest => scanIndent { i with column := 0, narrow := 0 } joined rest
  | '\\' :: '\n' :: [] => none
  | '\\' :: '\n' :: rest =>
    scanIndent { i with joined := if i.joined = 0 then i.column else i.joined } (joined + 1) rest
  | '\\' :: _ => none
  | cs => some (i, cs, joined)

/-- The state of the scan: what is left, the line, open indents and brackets from the innermost
out, and the tokens so far in reverse. -/
structure State where
  rest : List Char
  line : Nat
  indents : List (Nat × Nat)
  brackets : List Char
  done : List Token

def State.emit (s : State) (kind : TokenKind) (text : String) (rest : List Char)
    (endLine : Nat) (isVerbatim : Bool := true) : State :=
  { s with
    rest := rest, line := endLine
    done := ⟨kind, text, s.line, endLine, isVerbatim⟩ :: s.done }

/-- Closes indents that are wider than the column. -/
def closeIndents (column : Nat) (line : Nat) : List (Nat × Nat) → List Token → List (Nat × Nat) × List Token
  | [], done => ([], done)
  | (c, n) :: rest, done =>
    if column < c then
      closeIndents column line rest ({ kind := .dedent, text := "", line, endLine := line } :: done)
    else ((c, n) :: rest, done)

/-- Opens or closes blocks at the start of a line with text. -/
def applyIndent (i : Indentation) (s : State) : Option State :=
  let column := if i.joined = 0 then i.column else i.joined
  let narrow := if i.joined = 0 then i.narrow else i.joined
  let (top, topNarrow) := s.indents.headD (0, 0)
  if column = top then if narrow = topNarrow then some s else none
  else if column > top then
    if narrow ≤ topNarrow ∨ s.indents.length ≥ maxIndents then none
    else
      some { s with
        indents := (column, narrow) :: s.indents
        done := { kind := .indent, text := "", line := s.line, endLine := s.line } :: s.done }
  else
    let (left, done) := closeIndents column s.line s.indents s.done
    let (c, n) := left.headD (0, 0)
    if column = c ∧ narrow = n then some { s with indents := left, done := done } else none

def closes (opening closing : Char) : Bool :=
  match opening with
  | '(' => closing == ')'
  | '[' => closing == ']'
  | _ => closing.toNat == 0x7D

def applyBracket (c : Char) (s : State) : Option State :=
  if c = '(' ∨ c = '[' ∨ c.toNat = 0x7B then
    if s.brackets.length ≥ maxBrackets then none else some { s with brackets := c :: s.brackets }
  else if c = ')' ∨ c = ']' ∨ c.toNat = 0x7D then
    match s.brackets with
    | opening :: outer => if closes opening c then some { s with brackets := outer } else none
    | [] => none
  else some s

def scanOperator (cs : List Char) : Option String :=
  operators.find? fun o ↦ o.toList.isPrefixOf cs

/-- Ends the list of tokens: open blocks are closed. -/
def finish (s : State) : Option (List Token) :=
  if s.brackets.isEmpty then
    let final (kind : TokenKind) : Token := { kind, text := "", line := s.line, endLine := s.line }
    let dedents := s.indents.map fun _ ↦ final .dedent
    some ((final .stop :: dedents ++ s.done).reverse)
  else none

def isSpace (c : Char) : Bool := c == ' ' || c == '\t' || c == '\x0c'

/-- Scans on, either at the start of a line (`fresh`) or within one; `blank` tells that the line
has no text. -/
def scan : (steps : Nat) → (fresh blank : Bool) → State → Option (List Token)
  | 0, _, _, _ => none
  | steps + 1, true, _, s => do
    let (indent, rest, joined) ← scanIndent {} 0 s.rest
    let s := { s with rest := rest, line := s.line + joined }
    match rest with
    | '#' :: _ | '\n' :: _ => scan steps false true s
    | _ =>
      if s.brackets.isEmpty then scan steps false false (← applyIndent indent s)
      else scan steps false false s
  | steps + 1, false, blank, s =>
    match s.rest.dropWhile isSpace with
    | [] => finish s
    | '#' :: rest => scan steps false blank { s with rest := rest.dropWhile (· != '\n') }
    | '\n' :: rest =>
      if blank || !s.brackets.isEmpty then
        scan steps true false { s with rest := rest, line := s.line + 1 }
      else
        let s := s.emit .newline "" rest s.line
        scan steps true false { s with line := s.line + 1 }
    | '\\' :: '\n' :: [] => none
    | '\\' :: '\n' :: rest => scan steps false blank { s with rest := rest, line := s.line + 1 }
    | c :: rest =>
      let cs := c :: rest
      if c == '"' || c == '\'' || (stringLetters cs).isSome then
        let letters := (stringLetters cs).getD []
        match scanString (cs.drop letters.length) with
        | none => none
        | some (body, after) =>
          scan steps false blank
            (s.emit .string (String.ofList (letters ++ body)) after (s.line + body.count '\n'))
      else if isNameStart c then
        let word := cs.takeWhile isNameChar
        let after := cs.dropWhile isNameChar
        let text := String.ofList word
        if keywords.contains text then scan steps false blank (s.emit .keyword text after s.line)
        else if word.all (fun d ↦ d.toNat < 128) then
          scan steps false blank (s.emit .name text after s.line)
        else if isIdentifier word then
          scan steps false blank (s.emit .name (Text.compatibilityForm text) after s.line false)
        else none
      else if c.isDigit || (c == '.' && rest.head?.any Char.isDigit) then
        match scanNumber cs with
        | none => none
        | some (text, after) =>
          scan steps false blank (s.emit .number (String.ofList text) after s.line)
      else
        match scanOperator cs with
        | none => none
        | some op =>
          match applyBracket c s with
          | none => none
          | some t => scan steps false blank (t.emit .operator op (cs.drop op.length) s.line)

end Lexer

/-- The characters of a source text, with line feeds only. A last line without an end gets one, and
so does one whose end has two characters. -/
def sourceChars (source : String) : List Char :=
  let cs := Text.unifyLines source.toList
  let isEnded := cs.getLast? == some '\n' && !Text.endsWith source "\r\n"
  if isEnded then cs else cs ++ ['\n']

def tokens (source : String) (firstLine : Nat) : Option (List Token) :=
  let cs := sourceChars source
  if cs.any fun c ↦ c.toNat = 0 then none
  else Lexer.scan (2 * cs.length + 2) true false ⟨cs, firstLine, [], [], []⟩
structure Stream where
  rest : List Token
  left : Nat
  /-- The line on which the last visible token ended. -/
  last : Nat

def Stream.ofTokens (ts : List Token) : Stream := ⟨ts, ts.length, 0⟩

abbrev Reader (α : Type) := Stream → Option (α × Stream)

namespace Reader

variable {α β : Type}

def pure (a : α) : Reader α := fun s ↦ some (a, s)

def bind (p : Reader α) (f : α → Reader β) : Reader β := fun s ↦
  match p s with
  | some (a, t) => f a t
  | none => none

instance : Monad Reader where
  pure := Reader.pure
  bind := Reader.bind

def fail : Reader α := fun _ ↦ none

def orElse (p q : Reader α) : Reader α := fun s ↦
  match p s with
  | some r => some r
  | none => q s

def optional (p : Reader α) : Reader (Option α) := fun s ↦
  match p s with
  | some (a, t) => some (some a, t)
  | none => some (none, s)

def guard (b : Bool) : Reader Unit := fun s ↦ if b then some ((), s) else none

def ofOption (o : Option α) : Reader α := fun s ↦ o.map fun a ↦ (a, s)

def peek : Reader Token := fun s ↦
  match s.rest with
  | t :: _ => some (t, s)
  | [] => none

def peekSecond : Reader (Option Token) := fun s ↦ some ((s.rest.drop 1).head?, s)

def next : Reader Token := fun s ↦
  match s.rest with
  | t :: rest => some (t, ⟨rest, s.left - 1, if t.isVisible then t.endLine else s.last⟩)
  | [] => none

def isNext (kind : TokenKind) (text : String) : Reader Bool := fun s ↦
  match s.rest with
  | t :: _ => some (t.kind == kind && t.text == text, s)
  | [] => some (false, s)

def atOp (text : String) : Reader Bool := isNext .operator text

def atKeyword (text : String) : Reader Bool := isNext .keyword text

def expect (kind : TokenKind) (text : String) : Reader Unit := do
  let t ← next
  guard (t.kind == kind && t.text == text)

def op (text : String) : Reader Unit := expect .operator text

def keyword (text : String) : Reader Unit := expect .keyword text

def kind (k : TokenKind) : Reader Token := do
  let t ← next
  guard (t.kind == k)
  return t

def name : Reader String := do
  let t ← kind .name
  return t.text

/-- Takes a name that is a keyword here only. -/
def word (text : String) : Reader Unit := do
  let t ← next
  guard (t.isWord text)

def newline : Reader Unit := do
  let _ ← kind .newline

def tryOp (text : String) : Reader Bool := do
  if ← atOp text then
    let _ ← next
    return true
  else return false

def tryKeyword (text : String) : Reader Bool := do
  if ← atKeyword text then
    let _ ← next
    return true
  else return false

def manyLoop (p : Reader α) : (steps : Nat) → (done : List α) → Reader (List α)
  | 0, done => fun s ↦ some (done.reverse, s)
  | steps + 1, done => fun s ↦
    match p s with
    | some (a, t) => manyLoop p steps (a :: done) t
    | none => some (done.reverse, s)

def many (p : Reader α) : Reader (List α) := fun s ↦ manyLoop p (s.left + 1) [] s

def many1 (p : Reader α) : Reader (List α) := do
  let a ← p
  let rest ← many p
  return a :: rest

/-- One or more, divided by commas; no comma at the end. -/
def commaList (p : Reader α) : Reader (List α) := do
  let a ← p
  let rest ← many (do op ","; p)
  return a :: rest

def lineHere : Reader Nat := do
  let t ← peek
  return t.line

def lineBehind : Reader Nat := fun s ↦ some (s.last, s)

/-- A node that starts on a given line and ends with the last token taken. -/
def nodeFrom (first : Nat) (form : Form) (children : List Node) : Reader Node := do
  let last ← lineBehind
  return .mk form ⟨first, last⟩ children

end Reader

end CodeAtlas.Script
