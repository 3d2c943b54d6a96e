import CodeAtlas.Json.Basic

/-!
# Writing JSON texts

Two layouts: one line, and one item a line with a given indent. Every character beyond ASCII is
written as an escape of four hexadecimal digits, or as two such escapes. In reports, `display` is
the form of a value on its own, where a text stands bare; `shown` is its form inside another value.
-/

namespace CodeAtlas.Json

def escapeChar (c : Char) : String :=
  if c = '"' then "\\\""
  else if c = '\\' then "\\\\"
  else if c = '\n' then "\\n"
  else if c = '\r' then "\\r"
  else if c = '\t' then "\\t"
  else if c.toNat = 8 then "\\b"
  else if c.toNat = 12 then "\\f"
  else if 32 ≤ c.toNat ∧ c.toNat < 127 then String.singleton c
  else if c.toNat < 0x10000 then "\\u" ++ Text.hexDigits 4 c.toNat
  else
    match Text.half? c with
    | some unit => "\\u" ++ Text.hexDigits 4 unit
    | none =>
      let n := c.toNat - 0x10000
      "\\u" ++ Text.hexDigits 4 (0xD800 + n / 0x400)
        ++ "\\u" ++ Text.hexDigits 4 (0xDC00 + n % 0x400)

def quote (s : String) : String :=
  (s.toList.foldl (fun acc c ↦ acc ++ escapeChar c) "\"").push '"'

/-- The text of a floating-point number; the three that are no numbers have names. -/
def floatText (x : Double) : String :=
  if x.isNaN then "NaN"
  else if x.isInfinite then (if x.isNegative then "-Infinity" else "Infinity")
  else x.text

def scalarText : Json → String
  | .null => "null"
  | .bool b => if b then "true" else "false"
  | .int i => intText i
  | .float x => floatText x
  | .str s => quote s
  | .arr _ => "[]"
  | .obj _ => "\x7b\x7d"

/-- The name of the member that belongs to an id, which need not be a text. -/
def memberName : Json → String
  | .str s => s
  | v => scalarText v

/-- The names of the members that belong to ids. Ids that serve as one key share the name of the
first. -/
def memberNames (ids : List Json) : Table Key String :=
  ids.foldl (fun names id ↦
    match id.key? with
    | some k => if names.contains k then names else names.put k id.memberName
    | none => names) []

/-- An object with a member for each key, under names that belong to keys. -/
def ofKeys (names : Table Key String) (t : Table Key Json) : Json :=
  .obj (t.map fun (k, v) ↦ ((names.get? k).getD "", v))

mutual

def addCompact (acc : String) : Json → String
  | .arr items => (addCompactItems (acc.push '[') true items).push ']'
  | .obj members => (addCompactMembers (acc ++ "\x7b") true members) ++ "\x7d"
  | v => acc ++ scalarText v

def addCompactItems (acc : String) (first : Bool) : List Json → String
  | [] => acc
  | v :: rest => addCompactItems (addCompact (if first then acc else acc ++ ", ") v) false rest

def addCompactMembers (acc : String) (first : Bool) : List (String × Json) → String
  | [] => acc
  | (k, v) :: rest =>
    addCompactMembers (addCompact ((if first then acc else acc ++ ", ") ++ quote k ++ ": ") v) false rest

end

def compact (v : Json) : String := addCompact "" v

def newLine (indent level : Nat) : String :=
  String.ofList ('\n' :: List.replicate (indent * level) ' ')

mutual

/-- Adds the text of a value with one item a line, at a level of nesting. -/
def addPretty (indent level : Nat) (acc : String) : Json → String
  | .arr [] => acc ++ "[]"
  | .arr (v :: rest) =>
    addPrettyItems indent (level + 1) (addPretty indent (level + 1)
      (acc ++ "[" ++ newLine indent (level + 1)) v) rest ++ newLine indent level ++ "]"
  | .obj [] => acc ++ "\x7b\x7d"
  | .obj ((k, v) :: rest) =>
    addPrettyMembers indent (level + 1) (addPretty indent (level + 1)
      (acc ++ "\x7b" ++ newLine indent (level + 1) ++ quote k ++ ": ") v) rest
      ++ newLine indent level ++ "\x7d"
  | v => acc ++ scalarText v

def addPrettyItems (indent level : Nat) (acc : String) : List Json → String
  | [] => acc
  | v :: rest =>
    addPrettyItems indent level (addPretty indent level (acc ++ "," ++ newLine indent level) v) rest

def addPrettyMembers (indent level : Nat) (acc : String) : List (String × Json) → String
  | [] => acc
  | (k, v) :: rest =>
    addPrettyMembers indent level
      (addPretty indent level (acc ++ "," ++ newLine indent level ++ quote k ++ ": ") v) rest

end

def pretty (v : Json) : String := addPretty 2 0 "" v

mutual

/-- The document with the members of every object in the order of their names. -/
def sorted : Json → Json
  | .arr items => .arr (sortedItems items)
  | .obj members => .obj ((sortedMembers members).mergeSort fun a b ↦ decide (a.1 ≤ b.1))
  | v => v

def sortedItems : List Json → List Json
  | [] => []
  | v :: rest => sorted v :: sortedItems rest

def sortedMembers : List (String × Json) → List (String × Json)
  | [] => []
  | (k, v) :: rest => (k, sorted v) :: sortedMembers rest

end
def shownScalar : Json → String
  | .null => "None"
  | .bool b => if b then "True" else "False"
  | .int i => intText i
  | .float x => x.text
  | .str s => Text.shownText s
  | .arr _ => "[]"
  | .obj _ => "\x7b\x7d"

mutual

def addShown (acc : String) : Json → String
  | .arr items => (addShownItems (acc.push '[') true items).push ']'
  | .obj members => addShownMembers (acc ++ "\x7b") true members ++ "\x7d"
  | v => acc ++ shownScalar v

def addShownItems (acc : String) (first : Bool) : List Json → String
  | [] => acc
  | v :: rest => addShownItems (addShown (if first then acc else acc ++ ", ") v) false rest

def addShownMembers (acc : String) (first : Bool) : List (String × Json) → String
  | [] => acc
  | (k, v) :: rest =>
    addShownMembers (addShown ((if first then acc else acc ++ ", ") ++ Text.shownText k ++ ": ") v) false rest

end

def shown (v : Json) : String := addShown "" v

def display : Json → String
  | .str s => s
  | v => v.shown

end CodeAtlas.Json
