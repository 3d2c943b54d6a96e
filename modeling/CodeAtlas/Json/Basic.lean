import CodeAtlas.Fault
import CodeAtlas.Table
import CodeAtlas.Number.Double

/-!
# JSON documents

A document keeps the members of an object in the order in which they were written and tells whole
numbers from floating-point ones. `Json.same` is the equality by which programs compare values: it
looks through the numeric kinds and ignores the order of members. `Key` is what is left of a value
when it serves as a key.
-/

namespace CodeAtlas

inductive Json
  | null
  | bool (b : Bool)
  | int (i : Int)
  | float (x : Double)
  | str (s : String)
  | arr (items : List Json)
  | obj (members : List (String × Json))
deriving Repr, Inhabited

namespace Json

/-- In documents that are written out, a text stands for itself. -/
instance coeText : Coe String Json := ⟨str⟩

def kind : Json → Kind
  | .null => .null
  | .bool _ => .bool
  | .int _ => .int
  | .float _ => .float
  | .str _ => .str
  | .arr _ => .list
  | .obj _ => .dict

mutual

def decEq (v w : Json) : Decidable (v = w) :=
  if h : v.kind = w.kind then
    match v, w, h with
    | .null, .null, _ => isTrue rfl
    | .bool a, .bool b, _ => decidable_of_iff (a = b) (by rw [Json.bool.injEq])
    | .int a, .int b, _ => decidable_of_iff (a = b) (by rw [Json.int.injEq])
    | .float a, .float b, _ => decidable_of_iff (a = b) (by rw [Json.float.injEq])
    | .str a, .str b, _ => decidable_of_iff (a = b) (by rw [Json.str.injEq])
    | .arr a, .arr b, _ =>
      have := decEqItems a b
      decidable_of_iff (a = b) (by rw [Json.arr.injEq])
    | .obj a, .obj b, _ =>
      have := decEqMembers a b
      decidable_of_iff (a = b) (by rw [Json.obj.injEq])
  else isFalse fun e ↦ h (congrArg kind e)

def decEqItems : (v w : List Json) → Decidable (v = w)
  | [], [] => isTrue rfl
  | [], _ :: _ => isFalse (by intro e; cases e)
  | _ :: _, [] => isFalse (by intro e; cases e)
  | a :: v, b :: w =>
    have := decEq a b
    have := decEqItems v w
    decidable_of_iff (a = b ∧ v = w) (by rw [List.cons.injEq])

def decEqMembers : (v w : List (String × Json)) → Decidable (v = w)
  | [], [] => isTrue rfl
  | [], _ :: _ => isFalse (by intro e; cases e)
  | _ :: _, [] => isFalse (by intro e; cases e)
  | (j, a) :: v, (k, b) :: w =>
    have := decEq a b
    have := decEqMembers v w
    decidable_of_iff (j = k ∧ a = b ∧ v = w) (by rw [List.cons.injEq, Prod.mk.injEq, and_assoc])

end

instance : DecidableEq Json := decEq

/-- Whether a value counts as true in a test: nothing, zero and empty values do not. -/
def truthy : Json → Bool
  | .null => false
  | .bool b => b
  | .int i => i != 0
  | .float x => !x.isZero
  | .str s => s != ""
  | .arr items => !items.isEmpty
  | .obj members => !members.isEmpty

/-- The whole number that a numeric value stands for: truth values count as one and zero. -/
def asInt? : Json → Option Int
  | .bool b => some (if b then 1 else 0)
  | .int i => some i
  | .float x => x.toInt?
  | _ => none

def asStr? : Json → Option String
  | .str s => some s
  | _ => none

mutual

/-- Equality of values: numbers of all kinds by value, objects without regard to order. The value
that is not a number equals nothing, but inside a list or an object it passes for itself. -/
def same : Json → Json → Bool
  | .null, .null => true
  | .str a, .str b => a == b
  | .arr a, .arr b => sameItems a b
  | .obj a, .obj b => a.length == b.length && sameMembers a b
  | .float a, .float b => a.same b
  | .bool a, .bool b => a == b
  | .int a, .int b => a == b
  | .bool a, .int b => (if a then 1 else 0) == b
  | .int a, .bool b => a == (if b then 1 else 0)
  | .float a, .int b => a.toInt? == some b
  | .int a, .float b => b.toInt? == some a
  | .float a, .bool b => a.toInt? == some (if b then 1 else 0)
  | .bool a, .float b => b.toInt? == some (if a then 1 else 0)
  | _, _ => false

def sameItems : List Json → List Json → Bool
  | [], [] => true
  | a :: v, b :: w => (same a b || a = b) && sameItems v w
  | _, _ => false

/-- Whether every member of the first list has its equal in the second. -/
def sameMembers : List (String × Json) → List (String × Json) → Bool
  | [], _ => true
  | (k, a) :: v, w =>
    (match Table.get? w k with
      | some b => same a b || a = b
      | none => false) && sameMembers v w

end

/-- Whether a value passes for another among items: it equals the other or is the other. -/
def alike (v w : Json) : Bool := v.same w || v = w

/-- Whether a value is the one that is not a number. -/
def isNaN : Json → Bool
  | .float x => x.isNaN
  | _ => false

end Json

/-- What a value is as a key: numbers of all kinds are one kind of key. -/
inductive Key
  | null
  | int (i : Int)
  | float (x : Double)
  | str (s : String)
deriving DecidableEq, Repr

namespace Json

/-- The key that a value serves as; lists and objects serve as none. -/
def key? : Json → Option Key
  | .null => some .null
  | .bool b => some (.int (if b then 1 else 0))
  | .int i => some (.int i)
  | .float x =>
    match x.toInt? with
    | some i => some (.int i)
    | none => some (.float x)
  | .str s => some (.str s)
  | .arr _ => none
  | .obj _ => none

def members : Json → List (String × Json)
  | .obj m => m
  | _ => []

def items : Json → List Json
  | .arr a => a
  | _ => []

/-- Member of an object, if the value is an object that has it. -/
def member? (v : Json) (name : String) : Option Json := Table.get? v.members name

/-- Writes one member of an object; any other value stays as it is. -/
def setMember (v : Json) (name : String) (value : Json) : Json :=
  match v with
  | .obj m => .obj (Table.put m name value)
  | w => w

end Json

end CodeAtlas
