import CodeAtlas.Number.Double
import CodeAtlas.Text.Case
import CodeAtlas.Text.Search

/-!
# Numbers in texts

A whole number has an optional sign and digits of any script, which must not be too many. Another
number has digits with an optional point, and an optional power of ten; the words for infinity and
for no number are read too. Single low lines may divide digits, and blanks may surround it all.
-/

namespace CodeAtlas.Text

/-- Reads digits, given whether a low line may come next. -/
def readDigits : (divisible : Bool) → (value : Nat) → List Char → Option Nat
  | divisible, value, [] => if divisible then some value else none
  | divisible, value, c :: rest =>
    match digitValue? c with
    | some d => readDigits true (value * 10 + d) rest
    | none => if c = '_' ∧ divisible then readDigits false value rest else none

def readInt? (s : String) : Option Int :=
  let cs := (trimBy isMargin s).toList
  if cs.countP (fun c ↦ (digitValue? c).isSome) > maxDigits then none
  else
    match cs with
    | '-' :: rest => (readDigits false 0 rest).map fun n ↦ -(n : Int)
    | '+' :: rest => (readDigits false 0 rest).map fun n ↦ (n : Int)
    | cs => (readDigits false 0 cs).map fun n ↦ (n : Int)
/-- The digits at the head of a list and what follows them. -/
def takeDigits : (divisible : Bool) → (done : List Nat) → List Char → List Nat × List Char
  | _, done, [] => (done.reverse, [])
  | divisible, done, c :: rest =>
    match digitValue? c with
    | some d => takeDigits true (d :: done) rest
    | none =>
      match rest with
      | d :: _ =>
        if c = '_' ∧ divisible ∧ (digitValue? d).isSome then takeDigits false done rest
        else (done.reverse, c :: rest)
      | [] => (done.reverse, c :: rest)

def digitsNumber (ds : List Nat) : Nat := ds.foldl (fun n d ↦ n * 10 + d) 0

/-- The power of ten that ends a number. -/
def readPower? : List Char → Option Int
  | [] => some 0
  | e :: rest =>
    if e = 'e' ∨ e = 'E' then
      let (sign, digits) : Int × List Char :=
        match rest with
        | '-' :: cs => (-1, cs)
        | '+' :: cs => (1, cs)
        | cs => (1, cs)
      match takeDigits false [] digits with
      | ([], _) => none
      | (ds, []) => some (sign * digitsNumber ds)
      | _ => none
    else none

/-- The number that a text without sign and blanks stands for. -/
def readMagnitude? (negative : Bool) (cs : List Char) : Option Double :=
  let signed (x : Double) : Double := if negative then x.neg else x
  let word := lower (String.ofList cs)
  if word = "inf" ∨ word = "infinity" then some (signed .infinity)
  else if word = "nan" then some .nan
  else
    let (whole, rest) := takeDigits false [] cs
    let (places, rest) :=
      match rest with
      | '.' :: cs => takeDigits false [] cs
      | cs => ([], cs)
    if whole.isEmpty && places.isEmpty then none
    else (readPower? rest).map fun e ↦
      Double.ofDecimal negative (digitsNumber (whole ++ places)) (e - places.length)

def readReal? (s : String) : Option Double :=
  match (trimBy isMargin s).toList with
  | '-' :: rest => readMagnitude? true rest
  | '+' :: rest => readMagnitude? false rest
  | cs => readMagnitude? false cs

end CodeAtlas.Text
