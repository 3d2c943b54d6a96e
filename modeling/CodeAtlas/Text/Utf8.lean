import CodeAtlas.Fault

/-!
# Bytes and texts

Decoding of UTF-8 with a report of the first bytes at fault, and the two ways in which lines end.
-/

namespace CodeAtlas.Text

/-- Why bytes are no UTF-8 text: the first and last byte at fault, and the reason. -/
structure DecodeError where
  first : Nat
  last : Nat
  byte : UInt8
  reason : String
deriving DecidableEq, Repr

def DecodeError.message (e : DecodeError) : String :=
  if e.first = e.last then
    s!"'utf-8' codec can't decode byte 0x{Text.hexDigits 2 e.byte.toNat} in position {e.first}: " ++ e.reason
  else s!"'utf-8' codec can't decode bytes in position {e.first}-{e.last}: " ++ e.reason

def isTail (b : UInt8) : Bool := 0x80 ≤ b.toNat && b.toNat ≤ 0xBF

/-- How many bytes follow a first byte, and the bounds of the one right after it. -/
def leadShape (b : UInt8) : Option (Nat × Nat × Nat) :=
  let n := b.toNat
  if 0xC2 ≤ n ∧ n ≤ 0xDF then some (1, 0x80, 0xBF)
  else if n = 0xE0 then some (2, 0xA0, 0xBF)
  else if n = 0xED then some (2, 0x80, 0x9F)
  else if 0xE1 ≤ n ∧ n ≤ 0xEF then some (2, 0x80, 0xBF)
  else if n = 0xF0 then some (3, 0x90, 0xBF)
  else if 0xF1 ≤ n ∧ n ≤ 0xF3 then some (3, 0x80, 0xBF)
  else if n = 0xF4 then some (3, 0x80, 0x8F)
  else none

/-- The bytes after a first byte that belong to its character, at most `count` of them. -/
def tailBytes (count low high : Nat) (bytes : List UInt8) : List UInt8 :=
  match bytes with
  | [] => []
  | b :: rest =>
    if count = 0 then []
    else if low ≤ b.toNat ∧ b.toNat ≤ high then b :: (rest.takeWhile isTail).take (count - 1)
    else []

def leadBits (count : Nat) (b : UInt8) : Nat :=
  b.toNat % (if count = 1 then 0x20 else if count = 2 then 0x10 else 0x08)

def decodeFrom : (steps : Nat) → (bytes : List UInt8) → (position : Nat) → (done : String) →
    Except DecodeError String
  | 0, _, _, done => .ok done
  | steps + 1, bytes, position, done =>
    match bytes with
    | [] => .ok done
    | b :: rest =>
      if b.toNat < 0x80 then decodeFrom steps rest (position + 1) (done.push (Char.ofNat b.toNat))
      else
        match leadShape b with
        | none => .error ⟨position, position, b, "invalid start byte"⟩
        | some (count, low, high) =>
          let tail := tailBytes count low high rest
          if tail.length = count then
            let code := tail.foldl (fun n t ↦ n * 0x40 + t.toNat % 0x40) (leadBits count b)
            decodeFrom steps (rest.drop count) (position + count + 1) (done.push (Char.ofNat code))
          else
            let reason :=
              if tail.length = rest.length then "unexpected end of data"
              else "invalid continuation byte"
            .error ⟨position, position + tail.length, b, reason⟩

def decode (bytes : ByteArray) : Except Fault String :=
  match decodeFrom (bytes.size + 1) bytes.toList 0 "" with
  | .ok s => .ok s
  | .error e => .error (.undecodable e.message)

/-- Every line end, whether of one or of two characters, becomes a line feed. -/
def unifyLines : List Char → List Char
  | [] => []
  | '\r' :: '\n' :: rest => '\n' :: unifyLines rest
  | '\r' :: rest => '\n' :: unifyLines rest
  | c :: rest => c :: unifyLines rest

def readable (bytes : ByteArray) : Except Fault String :=
  (fun s : String ↦ String.ofList (unifyLines s.toList)) <$> decode bytes

end CodeAtlas.Text
