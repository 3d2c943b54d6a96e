import CodeAtlas.Json.Basic

/-!
# Looking into documents of unknown shape

Documents come from outside and may have any shape. Each operation here either gives what was
asked for or names the cause for which it cannot.
-/

namespace CodeAtlas.Json

/-- The value under a name, or the given one if there is none. -/
def getD (v : Json) (name : String) (default : Json) : Except Fault Json :=
  match v with
  | .obj m => .ok ((Table.get? m name).getD default)
  | w => .error (.noMember w.kind "get")

def get (v : Json) (name : String) : Except Fault Json := v.getD name .null

def need (v : Json) (name : String) : Except Fault Json :=
  match v with
  | .obj m =>
    match Table.get? m name with
    | some w => .ok w
    | none => .error (.missingKey (Text.shownText name))
  | .arr _ => .error (.badOperand "list indices must be integers or slices, not str")
  | .str _ => .error (.badOperand "string indices must be integers, not 'str'")
  | w => .error (.badOperand s!"'{w.kind.name}' object is not subscriptable")

/-- The first value if it counts as true, and the second otherwise. -/
def orElse (v w : Json) : Json := if v.truthy then v else w

/-- What a walk over a value meets: items, names of members, or characters. -/
def elements (v : Json) : Except Fault (List Json) :=
  match v with
  | .arr items => .ok items
  | .obj m => .ok (m.map fun e ↦ .str e.1)
  | .str s => .ok (s.toList.map fun c ↦ .str (String.singleton c))
  | w => .error (.badOperand s!"'{w.kind.name}' object is not iterable")

def unhashable (v : Json) : Fault := .badOperand s!"unhashable type: '{v.kind.name}'"

def key (v : Json) : Except Fault Key :=
  match v.key? with
  | some k => .ok k
  | none => .error v.unhashable

/-- Whether a value holds another: as an item of a list, as a name of an object, or as a part of a
text. -/
def holds (v x : Json) : Except Fault Bool :=
  match v with
  | .arr items => .ok (items.any fun w ↦ w.alike x)
  | .obj m =>
    match x with
    | .str name => .ok (Table.contains m name)
    | w => (fun _ ↦ false) <$> w.key
  | .str s =>
    match x with
    | .str part => .ok (Text.occursIn part s)
    | w => .error (.badOperand s!"'in <string>' requires string as left operand, not {w.kind.name}")
  | w => .error (.badOperand s!"argument of type '{w.kind.name}' is not iterable")

/-- The members of an object, asked for by the given word. -/
def membersBy (v : Json) (word : String) : Except Fault (List (String × Json)) :=
  match v with
  | .obj m => .ok m
  | w => .error (.noMember w.kind word)

def size (v : Json) : Except Fault Nat :=
  match v with
  | .arr items => .ok items.length
  | .obj m => .ok m.length
  | .str s => .ok s.length
  | w => .error (.badOperand s!"object of type '{w.kind.name}' has no len()")

/-- The text of a value that must be one, for an operation asked for by the given word. -/
def strBy (v : Json) (word : String) : Except Fault String :=
  match v with
  | .str s => .ok s
  | w => .error (.noMember w.kind word)

end CodeAtlas.Json
