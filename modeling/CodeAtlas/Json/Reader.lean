import CodeAtlas.Json.Basic

/-!
# Reading JSON texts

A reader that keeps the order of members, takes the last of two members of one name, and reports
the first place at which a text stops being a document. The names `NaN`, `Infinity` and `-Infinity`
are read as numbers. The first argument of each reader bounds its steps. A text of `n` characters
needs no more than `2 * n + 2`: every bracket and every item takes at most two, and a string that
begins with `r` characters left still has more than `r`.
-/

namespace CodeAtlas.Json

/-- Why a text is not read. -/
inductive ReadError
  /-- It is no document, for a reason that shows at a place. -/
  | malformed (reason : String) (position : Nat)
  /-- A whole number has this many digits, which is too many. -/
  | longNumber (digits : Nat)
  /-- Lists and objects nest too deep; the word tells which of both went too far. -/
  | tooDeep (container : String)
deriving DecidableEq, Repr

def maxNesting : Nat := 988

/-- A place in a text: the characters from there on, and how many precede them. -/
structure Cursor where
  rest : List Char
  position : Nat

namespace Cursor

def skip (c : Cursor) (n : Nat) : Cursor := ⟨c.rest.drop n, c.position + n⟩

def isGap (c : Char) : Bool := c == ' ' || c == '\t' || c == '\n' || c == '\r'

def skipGap (c : Cursor) : Cursor :=
  let gap := c.rest.takeWhile isGap
  ⟨c.rest.dropWhile isGap, c.position + gap.length⟩

end Cursor

abbrev Read (α : Type) := Except ReadError (α × Cursor)

def hexValue? (c : Char) : Option Nat :=
  if c.isDigit then some (c.toNat - 48)
  else if 'a' ≤ c ∧ c ≤ 'f' then some (c.toNat - 87)
  else if 'A' ≤ c ∧ c ≤ 'F' then some (c.toNat - 55)
  else none

/-- The value of four hexadecimal digits at the start of a list. -/
def hexQuad? (cs : List Char) : Option Nat :=
  match cs with
  | a :: b :: c :: d :: _ => do
    let a ← hexValue? a
    let b ← hexValue? b
    let c ← hexValue? c
    let d ← hexValue? d
    some (((a * 16 + b) * 16 + c) * 16 + d)
  | _ => none

/-- The character that a one-letter escape stands for. -/
def shortEscape? (c : Char) : Option Char :=
  match c with
  | '"' => some '"'
  | '\\' => some '\\'
  | '/' => some '/'
  | 'b' => some '\x08'
  | 'f' => some '\x0c'
  | 'n' => some '\n'
  | 'r' => some '\r'
  | 't' => some '\t'
  | _ => none

/-- An escape of four digits, where `digits` follows the letter `u` at `position`: the character,
what follows it, and how many characters it took. A pair of escapes for one character is joined. -/
def unitEscape (digits : List Char) (position : Nat) : Except ReadError (Char × List Char × Nat) :=
  let bad (at' : Nat) : ReadError := .malformed "Invalid \\uXXXX escape" at'
  -- a quote must still follow the digits
  if (digits.take 5).length < 5 then .error (bad position)
  else
    match hexQuad? digits with
    | none => .error (bad position)
    | some high =>
      let after := digits.drop 4
      if 0xD800 ≤ high ∧ high ≤ 0xDBFF then
        match after with
        | '\\' :: 'u' :: more =>
          if (more.take 5).length < 5 then .ok (Text.unitChar high, after, 4)
          else
            match hexQuad? more with
            | none => .error (bad (position + 6))
            | some low =>
              if 0xDC00 ≤ low ∧ low ≤ 0xDFFF then
                .ok (Char.ofNat (0x10000 + (high - 0xD800) * 0x400 + (low - 0xDC00)), more.drop 4, 10)
              else .ok (Text.unitChar high, after, 4)
        | _ => .ok (Text.unitChar high, after, 4)
      else .ok (Text.unitChar high, after, 4)

/-- The rest of a string whose opening quote stands at `start`. -/
def readString (start : Nat) : (steps : Nat) → Cursor → (done : String) → Read String
  | 0, _, _ => .error (.malformed "Unterminated string starting at" start)
  | steps + 1, c, done =>
    match c.rest with
    | [] => .error (.malformed "Unterminated string starting at" start)
    | '"' :: rest => .ok (done, ⟨rest, c.position + 1⟩)
    | '\\' :: [] => .error (.malformed "Unterminated string starting at" start)
    | '\\' :: 'u' :: digits =>
      match unitEscape digits (c.position + 1) with
      | .error e => .error e
      | .ok (char, rest, used) =>
        readString start steps ⟨rest, c.position + 2 + used⟩ (done.push char)
    | '\\' :: letter :: rest =>
      match shortEscape? letter with
      | some char => readString start steps ⟨rest, c.position + 2⟩ (done.push char)
      | none => .error (.malformed "Invalid \\escape" c.position)
    | char :: rest =>
      if char.toNat < 32 then .error (.malformed "Invalid control character at" c.position)
      else readString start steps ⟨rest, c.position + 1⟩ (done.push char)

def digitsValue (cs : List Char) : Nat := cs.foldl (fun n c ↦ n * 10 + (c.toNat - 48)) 0

/-- A number at the cursor, if there is one. -/
def readNumber? (c : Cursor) : Option (Read Json) :=
  let negative := c.rest.head? == some '-'
  let body := if negative then c.rest.drop 1 else c.rest
  let whole :=
    match body with
    | '0' :: _ => ['0']
    | cs => cs.takeWhile Char.isDigit
  if whole.isEmpty then none
  else
    let afterWhole := body.drop whole.length
    let places :=
      match afterWhole with
      | '.' :: cs => cs.takeWhile Char.isDigit
      | _ => []
    let afterPlaces := if places.isEmpty then afterWhole else afterWhole.drop (places.length + 1)
    let power : Option (Bool × List Char × Nat) :=
      match afterPlaces with
      | e :: cs =>
        if e == 'e' || e == 'E' then
          match cs with
          | '-' :: ds =>
            let ds := ds.takeWhile Char.isDigit
            if ds.isEmpty then none else some (true, ds, ds.length + 2)
          | '+' :: ds =>
            let ds := ds.takeWhile Char.isDigit
            if ds.isEmpty then none else some (false, ds, ds.length + 2)
          | ds =>
            let ds := ds.takeWhile Char.isDigit
            if ds.isEmpty then none else some (false, ds, ds.length + 1)
        else none
      | [] => none
    let used := (if negative then 1 else 0) + whole.length + (if places.isEmpty then 0 else places.length + 1)
      + (match power with
        | some (_, _, n) => n
        | none => 0)
    let next := c.skip used
    if places.isEmpty && power.isNone then
      if whole.length > maxDigits then some (.error (.longNumber whole.length))
      else
        let value : Nat := digitsValue whole
        some (.ok (.int (if negative then -(value : Int) else value), next))
    else
      let e : Int :=
        match power with
        | some (true, ds, _) => -(digitsValue ds : Int)
        | some (false, ds, _) => digitsValue ds
        | none => 0
      let value := Double.ofDecimal negative (digitsValue (whole ++ places)) (e - places.length)
      some (.ok (.float value, next))

def words : List (String × Json) :=
  [("null", .null), ("true", .bool true), ("false", .bool false), ("NaN", .float .nan),
   ("Infinity", .float .infinity), ("-Infinity", .float (Double.neg .infinity))]

def readWord? (c : Cursor) : Option (Json × Cursor) :=
  words.findSome? fun (word, value) ↦
    if word.toList.isPrefixOf c.rest then some (value, c.skip word.length) else none

mutual

/-- A value at the cursor, inside which lists and objects may nest `room` deep. -/
def readValue : (steps room : Nat) → Cursor → Read Json
  | 0, _, c => .error (.malformed "Expecting value" c.position)
  | steps + 1, room, c =>
    match c.rest with
    | '"' :: rest =>
      match readString c.position steps ⟨rest, c.position + 1⟩ "" with
      | .ok (s, next) => .ok (.str s, next)
      | .error e => .error e
    | '{' :: rest =>
      if room = 0 then .error (.tooDeep "object")
      else
        let inner := Cursor.skipGap ⟨rest, c.position + 1⟩
        match inner.rest with
        | '}' :: _ => .ok (.obj [], inner.skip 1)
        | _ => readMembers steps (room - 1) inner []
    | '[' :: rest =>
      if room = 0 then .error (.tooDeep "array")
      else
        let inner := Cursor.skipGap ⟨rest, c.position + 1⟩
        match inner.rest with
        | ']' :: _ => .ok (.arr [], inner.skip 1)
        | _ => readItems steps (room - 1) inner []
    | _ =>
      match readWord? c with
      | some found => .ok found
      | none => (readNumber? c).getD (.error (.malformed "Expecting value" c.position))

/-- The items of a list from one of them on; `done` holds those before it in reverse. -/
def readItems : (steps room : Nat) → Cursor → (done : List Json) → Read Json
  | 0, _, c, _ => .error (.malformed "Expecting value" c.position)
  | steps + 1, room, c, done =>
    match readValue steps room c with
    | .error e => .error e
    | .ok (v, next) =>
      let next := next.skipGap
      match next.rest with
      | ']' :: _ => .ok (.arr (v :: done).reverse, next.skip 1)
      | ',' :: _ => readItems steps room (next.skip 1).skipGap (v :: done)
      | _ => .error (.malformed "Expecting ',' delimiter" next.position)

def readMembers : (steps room : Nat) → Cursor → (done : Table String Json) → Read Json
  | 0, _, c, _ => .error (.malformed "Expecting value" c.position)
  | steps + 1, room, c, done =>
    match c.rest with
    | '"' :: rest =>
      match readString c.position steps ⟨rest, c.position + 1⟩ "" with
      | .error e => .error e
      | .ok (name, next) =>
        let next := next.skipGap
        match next.rest with
        | ':' :: _ =>
          match readValue steps room (next.skip 1).skipGap with
          | .error e => .error e
          | .ok (v, after) =>
            let after := after.skipGap
            let done := done.put name v
            match after.rest with
            | '}' :: _ => .ok (.obj done, after.skip 1)
            | ',' :: _ => readMembers steps room (after.skip 1).skipGap done
            | _ => .error (.malformed "Expecting ',' delimiter" after.position)
        | _ => .error (.malformed "Expecting ':' delimiter" next.position)
    | _ => .error (.malformed "Expecting property name enclosed in double quotes" c.position)

end

def readText (text : String) : Except ReadError Json :=
  let cs := text.toList
  match cs with
  | '\uFEFF' :: _ => .error (.malformed "Unexpected UTF-8 BOM (decode using utf-8-sig)" 0)
  | _ =>
    match readValue (2 * cs.length + 2) maxNesting (Cursor.skipGap ⟨cs, 0⟩) with
    | .error e => .error e
    | .ok (v, next) =>
      let next := next.skipGap
      if next.rest.isEmpty then .ok v else .error (.malformed "Extra data" next.position)

/-- Line and column, both from one, of a place in a text. -/
def lineColumn (text : String) (position : Nat) : Nat × Nat :=
  let before := text.toList.take position
  (before.count '\n' + 1, (before.reverse.takeWhile (· != '\n')).length + 1)

def ReadError.fault (text : String) : ReadError → Fault
  | .malformed reason position =>
    let (line, column) := lineColumn text position
    .malformedJson s!"{reason}: line {line} column {column} (char {position})"
  | .longNumber digits =>
    .badValue (s!"Exceeds the limit ({maxDigits} digits) for integer string conversion: value has "
      ++ s!"{digits} digits; use sys.set_int_max_str_digits() to increase the limit")
  | .tooDeep container => .tooDeep s!"while decoding a JSON {container} from a unicode string"

/-- Reads a whole text, with the report of a text that is no document. -/
def parse (text : String) : Except Fault Json := (readText text).mapError (·.fault text)

end CodeAtlas.Json
