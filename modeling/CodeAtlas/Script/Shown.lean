import CodeAtlas.Json.Writer
import CodeAtlas.Script.Node

/-!
# Expressions in reports

The text by which a report names an expression: the kind of each node and all its fields, without
those that are absent.
-/

namespace CodeAtlas.Script

namespace Constant

def shownByte (mark : Char) (b : UInt8) : String :=
  let c := Char.ofNat b.toNat
  if c = mark ∨ c = '\\' then "\\" ++ String.singleton c
  else if c = '\n' then "\\n"
  else if c = '\r' then "\\r"
  else if c = '\t' then "\\t"
  else if 32 ≤ b.toNat ∧ b.toNat < 127 then String.singleton c
  else "\\x" ++ Text.hexDigits 2 b.toNat

def shownBytes (bs : List UInt8) : String :=
  let mark := Text.markFor (bs.map fun b ↦ Char.ofNat b.toNat)
  (bs.foldl (fun acc b ↦ acc ++ shownByte mark b) ("b" ++ String.singleton mark)).push mark

/-- An imaginary number; a whole one has no places. -/
def shownImaginary (x : Double) : String :=
  let t := x.text
  (if t.endsWith ".0" then String.ofList (t.toList.take (t.length - 2)) else t) ++ "j"

def shown : Constant → String
  | .none => "None"
  | .bool b => if b then "True" else "False"
  | .ellipsis => "Ellipsis"
  | .int n => decimalText n
  | .float x => x.text
  | .imaginary x => shownImaginary x
  | .text s _ => Text.shownText s
  | .bytes b => shownBytes b

def isTooLong : Constant → Bool
  | .int n => decide (tenTo maxDigits ≤ n)
  | _ => false

def tooLong : Fault :=
  .badValue (s!"Exceeds the limit ({maxDigits} digits) for integer string conversion; use "
    ++ "sys.set_int_max_str_digits() to increase the limit")

def display : Constant → Except Fault String
  | .text s _ => .ok s
  | c => if c.isTooLong then .error tooLong else .ok c.shown

end Constant

def Usage.shown : Usage → String
  | .load => "Load()"
  | .store => "Store()"
  | .delete => "Del()"

def shownFields (kind : String) (fields : List (String × String)) : String :=
  kind ++ "(" ++ String.intercalate ", " (fields.map fun (k, v) ↦ k ++ "=" ++ v) ++ ")"

def shownList (items : List String) : String := "[" ++ String.intercalate ", " items ++ "]"

/-- Places for absent items among present ones. -/
def withGaps : List Bool → List String → List String
  | [], _ => []
  | false :: rest, items => "None" :: withGaps rest items
  | true :: rest, [] => withGaps rest []
  | true :: rest, item :: items => item :: withGaps rest items

def sliceFields (lower upper step : Bool) (cs : List String) : List (String × String) :=
  (([("lower", lower), ("upper", upper), ("step", step)].filter Prod.snd).map Prod.fst).zip cs

def paramsShown (s : ParamShape) (cs : List String) : String :=
  let (positionalOnly, cs) := cs.splitAt s.positionalOnly
  let (plain, cs) := cs.splitAt s.plain
  let (rest, cs) := cs.splitAt (if s.hasRest then 1 else 0)
  let (keywordOnly, cs) := cs.splitAt s.keywordOnly
  let (keywordDefaults, cs) := cs.splitAt (s.keywordDefaults.count true)
  let (keywordRest, defaults) := cs.splitAt (if s.hasKeywordRest then 1 else 0)
  shownFields "arguments"
    ([("posonlyargs", shownList positionalOnly), ("args", shownList plain)]
      ++ rest.map (fun t ↦ ("vararg", t)) ++ [("kwonlyargs", shownList keywordOnly),
          ("kw_defaults", shownList (withGaps s.keywordDefaults keywordDefaults))]
      ++ keywordRest.map (fun t ↦ ("kwarg", t)) ++ [("defaults", shownList defaults)])

/-- The text of a node from the texts of its children. -/
def formShown (form : Form) (cs : List String) : String :=
  let at' (i : Nat) : String := (cs[i]?).getD ""
  match form with
  | .boolOp op => shownFields "BoolOp" [("op", op ++ "()"), ("values", shownList cs)]
  | .namedExpr => shownFields "NamedExpr" [("target", at' 0), ("value", at' 1)]
  | .binOp op => shownFields "BinOp" [("left", at' 0), ("op", op ++ "()"), ("right", at' 1)]
  | .unaryOp op => shownFields "UnaryOp" [("op", op ++ "()"), ("operand", at' 0)]
  | .lambda => shownFields "Lambda" [("args", at' 0), ("body", at' 1)]
  | .ifExp => shownFields "IfExp" [("test", at' 0), ("body", at' 1), ("orelse", at' 2)]
  | .dict keys =>
    let count := keys.count true
    shownFields "Dict"
      [("keys", shownList (withGaps keys (cs.take count))), ("values", shownList (cs.drop count))]
  | .set => shownFields "Set" [("elts", shownList cs)]
  | .listComp => shownFields "ListComp" [("elt", at' 0), ("generators", shownList (cs.drop 1))]
  | .setComp => shownFields "SetComp" [("elt", at' 0), ("generators", shownList (cs.drop 1))]
  | .dictComp =>
    shownFields "DictComp" [("key", at' 0), ("value", at' 1), ("generators", shownList (cs.drop 2))]
  | .generator =>
    shownFields "GeneratorExp" [("elt", at' 0), ("generators", shownList (cs.drop 1))]
  | .comprehension isAsync =>
    shownFields "comprehension" [("target", at' 0), ("iter", at' 1), ("ifs", shownList (cs.drop 2)),
       ("is_async", if isAsync then "1" else "0")]
  | .await => shownFields "Await" [("value", at' 0)]
  | .yield => shownFields "Yield" (cs.map fun t ↦ ("value", t))
  | .yieldFrom => shownFields "YieldFrom" [("value", at' 0)]
  | .compare ops =>
    shownFields "Compare" [("left", at' 0), ("ops", shownList (ops.map (· ++ "()"))),
       ("comparators", shownList (cs.drop 1))]
  | .call args =>
    shownFields "Call" [("func", at' 0), ("args", shownList ((cs.drop 1).take args)),
       ("keywords", shownList (cs.drop (1 + args)))]
  | .keyword name =>
    shownFields "keyword" ((name.toList.map fun k ↦ ("arg", Text.shownText k)) ++ [("value", at' 0)])
  | .formatted conversion =>
    shownFields "FormattedValue" ([("value", at' 0), ("conversion", intText conversion)]
        ++ (cs.drop 1).map fun t ↦ ("format_spec", t))
  | .joined => shownFields "JoinedStr" [("values", shownList cs)]
  | .constant (.text s true) =>
    shownFields "Constant" [("value", Text.shownText s), ("kind", "'u'")]
  | .constant c => shownFields "Constant" [("value", c.shown)]
  | .attribute name usage =>
    shownFields "Attribute" [("value", at' 0), ("attr", Text.shownText name), ("ctx", usage.shown)]
  | .subscript usage =>
    shownFields "Subscript" [("value", at' 0), ("slice", at' 1), ("ctx", usage.shown)]
  | .starred usage => shownFields "Starred" [("value", at' 0), ("ctx", usage.shown)]
  | .name id usage => shownFields "Name" [("id", Text.shownText id), ("ctx", usage.shown)]
  | .list usage => shownFields "List" [("elts", shownList cs), ("ctx", usage.shown)]
  | .tuple usage => shownFields "Tuple" [("elts", shownList cs), ("ctx", usage.shown)]
  | .slice lower upper step => shownFields "Slice" (sliceFields lower upper step cs)
  | .params shape => paramsShown shape cs
  | .param name =>
    shownFields "arg" (("arg", Text.shownText name) :: cs.map fun t ↦ ("annotation", t))
  | _ => ""

def Form.isTooLong : Form → Bool
  | .constant c => c.isTooLong
  | _ => false

mutual

/-- Whether a tree holds a whole number that is too long to be written. -/
def Node.hasTooLong : Node → Bool
  | .mk form _ children => form.isTooLong || Node.anyTooLong children

def Node.anyTooLong : List Node → Bool
  | [] => false
  | n :: rest => n.hasTooLong || Node.anyTooLong rest

end

mutual

def Node.shown : Node → String
  | .mk form _ children => formShown form (Node.shownAll children)

def Node.shownAll : List Node → List String
  | [] => []
  | n :: rest => n.shown :: Node.shownAll rest

end

def Node.display (n : Node) : Except Fault String :=
  if n.hasTooLong then .error Constant.tooLong else .ok n.shown

end CodeAtlas.Script
