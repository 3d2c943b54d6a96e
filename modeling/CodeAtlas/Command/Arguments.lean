import CodeAtlas.Table
import CodeAtlas.Text.Numeral

/-!
# Command lines

An option is a name that starts with a hyphen. It may be cut short as long as only one option fits,
and its value may follow after an equals sign or as the next argument. A double hyphen ends the
options. What looks like a negative number, or holds a blank, is an argument. The last of repeated
options counts.
-/

namespace CodeAtlas.Arguments

inductive Takes
  /-- Nothing; it asks for help. -/
  | help
  /-- Nothing; it is switched on. -/
  | nothing
  | text
  | int
  | oneOf (choices : List String)
deriving DecidableEq, Repr

structure Opt where
  name : String
  takes : Takes
deriving DecidableEq, Repr

/-- What a program takes: options and arguments that must all be given. -/
structure Usage where
  options : List Opt
  positionals : List String := []

def helpOptions : List Opt := [⟨"-h", .help⟩, ⟨"--help", .help⟩]

inductive Refusal
  /-- It asks for help, with the command in question if there is one. -/
  | help (command : Option String)
  | misuse
deriving DecidableEq, Repr

inductive Value
  | on
  | text (s : String)
  | int (i : Int)
deriving DecidableEq, Repr

abbrev Values := Table String Value

/-- What stands behind the name of an option in one word. -/
inductive Given
  | nothing
  /-- A value after an equals sign. -/
  | value (text : String)
  /-- Letters that follow an option of one letter. -/
  | joined (letters : String)
deriving DecidableEq, Repr

inductive Piece
  | argument (text : String)
  | divider
  | option (o : Opt) (given : Given)
  | unknown
deriving DecidableEq, Repr

def cutAtEquals (word : String) : Option (String × String) :=
  let cs := word.toList
  match cs.dropWhile (· != '=') with
  | [] => none
  | _ :: rest => some (String.ofList (cs.takeWhile (· != '=')), String.ofList rest)

/-- The options that a word may be short for. -/
def candidates (options : List Opt) (word : String) : List (Opt × Given) :=
  match word.toList with
  | '-' :: '-' :: _ =>
    let (start, given) :=
      match cutAtEquals word with
      | some (start, given) => (start, Given.value given)
      | none => (word, Given.nothing)
    (options.filter fun o ↦ Text.startsWith o.name start).map fun o ↦ (o, given)
  | '-' :: c :: rest =>
    options.filterMap fun o ↦
      if o.name = String.ofList ['-', c] then some (o, .joined (String.ofList rest))
      else if Text.startsWith o.name word then some (o, .nothing)
      else none
  | _ => []

def isNegativeNumber (word : String) : Bool :=
  match word.toList with
  | '-' :: cs =>
    let isDigit (c : Char) : Bool := (Text.digitValue? c).isSome
    match cs.dropWhile isDigit with
    | [] => !cs.isEmpty
    | ['\n'] => cs.length ≥ 2
    | '.' :: rest =>
      let digits := if rest.getLast? == some '\n' then rest.dropLast else rest
      !digits.isEmpty && digits.all isDigit
    | _ => false
  | _ => false

/-- What one word is, before any double hyphen. -/
def pieceOf (options : List Opt) (word : String) : Except Refusal Piece :=
  match word.toList with
  | [] => .ok (.argument word)
  | ['-'] => .ok (.argument word)
  | ['-', '-'] => .ok .divider
  | '-' :: _ =>
    match options.find? fun o ↦ o.name == word with
    | some o => .ok (.option o .nothing)
    | none =>
      let whole := (cutAtEquals word).bind fun (name, given) ↦
        (options.find? fun o ↦ o.name == name).map fun o ↦ (o, Given.value given)
      match whole.toList ++ (if whole.isSome then [] else candidates options word) with
      | [(o, given)] => .ok (.option o given)
      | [] =>
        if isNegativeNumber word || word.toList.contains ' ' then .ok (.argument word)
        else .ok .unknown
      | _ => .error .misuse
  | _ => .ok (.argument word)

/-- What the words are; all after a double hyphen are arguments. -/
def piecesOf (options : List Opt) : List String → Except Refusal (List Piece)
  | [] => .ok []
  | word :: rest => do
    match ← pieceOf options word with
    | .divider => return .divider :: rest.map Piece.argument
    | piece => return piece :: (← piecesOf options rest)

def valueOf (takes : Takes) (text : String) : Except Refusal Value :=
  match takes with
  | .int =>
    match Text.readInt? text with
    | some i => .ok (.int i)
    | none => .error .misuse
  | .oneOf choices => if choices.contains text then .ok (.text text) else .error .misuse
  | _ => .ok (.text text)

/-- What follows when letters stand behind the one that asks for help. Further letters may be
options again, and the first that is none ends them; a hyphen or an equals sign is out of place. -/
def afterHelp (options : List Opt) : List Char → Refusal
  | [] => .help none
  | '-' :: _ => .misuse
  | c :: rest =>
    if options.any fun o ↦ o.name == String.ofList ['-', c] then
      if rest.head? == some '=' then .misuse else afterHelp options rest
    else .help none

/-- What follows when help is asked for, which takes no value. -/
def onHelp (options : List Opt) : Given → Refusal
  | .nothing => .help none
  | .value _ => .misuse
  | .joined letters => afterHelp options letters.toList

/-- What the words tell: values, of which the first under a name counts, arguments that are still
expected, and whether a word was left over. -/
structure Progress where
  values : Values := []
  expected : List String
  leftOver : Bool := false

def Progress.add (p : Progress) (values : Values) : Progress := { p with values := p.values ++ values }

def isPlain : Piece → Bool
  | .argument _ => true
  | .divider => true
  | _ => false

def collect (options : List Opt) : (steps : Nat) → (expected : List String) → List Piece →
    Except Refusal Progress
  | 0, expected, _ => .ok { expected }
  | _, expected, [] => .ok { expected }
  | steps + 1, expected, piece :: rest =>
    match piece with
    | .unknown => do
      let p ← collect options steps expected rest
      return { p with leftOver := true }
    | .option o given =>
      match o.takes, given with
      | .help, given => .error (onHelp options given)
      | _, .joined _ => .error .misuse
      | .nothing, .nothing => do return (← collect options steps expected rest).add [(o.name, .on)]
      | .nothing, .value _ => .error .misuse
      | takes, .value g => do
        let value ← valueOf takes g
        return (← collect options steps expected rest).add [(o.name, value)]
      | takes, .nothing =>
        match rest with
        | .argument t :: rest => do
          let value ← valueOf takes t
          return (← collect options steps expected rest).add [(o.name, value)]
        | _ => .error .misuse
    | _ => do
      let run := (piece :: rest).takeWhile isPlain
      let texts := run.filterMap fun
        | .argument t => some t
        | _ => none
      let used := min expected.length texts.length
      let p ← collect options steps (expected.drop used) ((piece :: rest).drop run.length)
      -- Arguments that nobody expects are left over.
      let leftOver := p.leftOver || decide (used < texts.length) || used == 0
      return { p with leftOver }.add ((expected.zip texts).map fun (name, t) ↦ (name, .text t))

def parse (u : Usage) (words : List String) : Except Refusal Values := do
  let pieces ← piecesOf u.options words
  let p ← collect u.options (pieces.length + 1) u.positionals pieces
  if p.expected.isEmpty && !p.leftOver then return p.values else throw .misuse

def parseNamed (name : String) (u : Usage) (words : List String) : Except Refusal Values :=
  match parse u words with
  | .error (.help _) => .error (.help (some name))
  | r => r

/-- Whether a word stands in front of the name of a command. -/
def isAhead : Piece → Bool
  | .argument _ => false
  | _ => true

def refusalAt? : Piece → Option Refusal
  | .option _ given => some (onHelp helpOptions given)
  | _ => none

/-- Why nothing can be asked if other words stand in front of the name of a command. -/
def refusalAhead (commands : List (String × Usage)) (ahead : List Piece) (words : List String) : Refusal :=
  match ahead.findSome? refusalAt?, words.drop ahead.length with
  | some refusal, _ => refusal
  | none, name :: rest =>
    match (Table.get? commands name).map (parseNamed name · rest) with
    | some (.error refusal) => if ahead.contains .divider then .misuse else refusal
    | _ => .misuse
  | none, [] => .misuse

/-- The command that a command line names, with its values; nothing if it names none. -/
def parseCommand (commands : List (String × Usage)) (words : List String) :
    Except Refusal (Option (String × Values)) := do
  match ← piecesOf helpOptions words, words with
  | .argument _ :: _, name :: rest =>
    match Table.get? commands name with
    | some u => return some (name, ← parseNamed name u rest)
    | none => throw .misuse
  | [], _ => return none
  | pieces, _ => throw (refusalAhead commands (pieces.takeWhile isAhead) words)

def Values.text? (v : Values) (name : String) : Option String :=
  match Table.get? v name with
  | some (.text s) => some s
  | _ => none

def Values.isOn (v : Values) (name : String) : Bool := Table.get? v name == some .on

def Values.int? (v : Values) (name : String) : Option Int :=
  match Table.get? v name with
  | some (.int i) => some i
  | _ => none

end CodeAtlas.Arguments
