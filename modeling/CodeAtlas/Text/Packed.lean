/-!
# Sets of characters, and packed texts

A property of characters is a list of ranges of code points. A table is written as a text of
numbers in base 36: for each range the gap from the end of the range before it, and its length less
one.

Long tables are packed: such a text is a number, and the characters of the packed text are its
digits. Reading goes from bit to bit. The first part of the span in which the number lies stands for
a one and the rest for a zero, and the part is the larger the more often a one has followed the same
characters before. How far the last characters are trusted, if few or many of them or those of a
word are looked at or what has followed them before, is learned on the way. Line feeds do not count.
-/

namespace CodeAtlas.Text

/-- The numbers of a text in base 36, divided by blanks or line ends. -/
def numbers (text : String) : Array Nat :=
  let step (acc : Array Nat × Option Nat) (c : Char) : Array Nat × Option Nat :=
    if c = ' ' || c = '\n' then
      match acc.2 with
      | some n => (acc.1.push n, none)
      | none => acc
    else
      let digit := if c.isDigit then c.toNat - 48 else c.toNat - 87
      (acc.1, some (acc.2.getD 0 * 36 + digit))
  let (done, last) := text.toList.foldl step (#[], none)
  match last with
  | some n => done.push n
  | none => done

/-- Ranges of code points in ascending order, both ends included. -/
structure Ranges where
  bounds : Array (Nat × Nat)

namespace Ranges

/-- Ranges from alternating gaps and lengths. -/
def decode (text : String) : Ranges :=
  let step (acc : Array (Nat × Nat) × Nat × Option Nat) (n : Nat) : Array (Nat × Nat) × Nat × Option Nat :=
    match acc.2.2 with
    | none => (acc.1, acc.2.1, some (acc.2.1 + n))
    | some low => (acc.1.push (low, low + n), low + n, none)
  ⟨((numbers text).foldl step (#[], 0, none)).1⟩

/-- Halves the stretch `low ≤ i < high` of ranges that may hold the code point. -/
def search (bounds : Array (Nat × Nat)) (code : Nat) : (steps low high : Nat) → Bool
  | 0, _, _ => false
  | steps + 1, low, high =>
    if low < high then
      let middle := (low + high) / 2
      match bounds[middle]? with
      | none => false
      | some (first, last) =>
        if code < first then search bounds code steps low middle
        else if last < code then search bounds code steps (middle + 1) high
        else true
    else false

def contains (r : Ranges) (c : Char) : Bool :=
  search r.bounds c.toNat (r.bounds.size + 1) 0 r.bounds.size

end Ranges

end CodeAtlas.Text

namespace CodeAtlas.Text.Packed

def digits : List Char :=
  "0123456789ABCDEFGHIJKLMNOPQRSTUVWXYZabcdefghijklmnopqrstuvwxyz!#$%&()*+,.<>?@[]^_|:;=~/`'".toList

/-- A span is kept from getting smaller than this, by reading digits. -/
def leastSpan : Nat := 89 * 89 * 89 * 89

/-- How many counts there are. -/
def places : Nat := 9999991

/-- What is known of the characters before a bit: the last five, the word that they end in, and for
each two characters which two have followed them last. -/
structure Past where
  last : Nat := 0
  word : Nat := 0
  followers : Array Nat := .replicate 16384 0

/-- What foretells a bit: some of the last characters, from none to five, the word, the two
characters before the last, and which two have followed the last two. -/
def Past.contexts (p : Past) : List Nat :=
  [1, 128, 16384, 2097152, 268435456, 34359738368].map (p.last % ·) ++
    [p.word, p.last / 128 % 16384, p.followers[p.last % 16384]!]

def Past.add (p : Past) (code : Nat) : Past where
  last := (p.last * 128 + code) % 34359738368
  word := if code < 65 then 0 else (p.word * 128 + code) % places
  followers := p.followers.modify (p.last % 16384) fun n ↦ (n * 128 + code) % 16384

abbrev Counts := ByteArray

def Counts.at (counts : Counts) (place : Nat) : Nat := (counts.get! place).toNat

def Counts.raise (counts : Counts) (place : Nat) : Counts :=
  if counts.at place < 255 then counts.set! place (UInt8.ofNat (counts.at place + 1)) else counts

def Counts.lower (counts : Counts) (place : Nat) : Counts :=
  if 2 < counts.at place then counts.set! place (UInt8.ofNat 2) else counts

/-- A logarithm that grows evenly between powers of two, by 256 from each to the next. -/
def logarithm (n : Nat) : Nat := 256 * n.log2 + (256 * n) >>> n.log2 - 256

def power (n : Nat) : Nat := (256 + n % 256) <<< (n / 256)

/-- Digits that are still to be read, the span with the place of the number in it, what has been
counted, and how much each context weighs after the bits of a character that are known and after the
one before. -/
structure Reader where
  rest : List Char
  span : Nat
  place : Nat
  zeros : Counts
  ones : Counts
  weights : Array Int

/-- Reads digits, but not more than given, until the span is large enough. -/
def Reader.refill : (most : Nat) → Reader → Reader
  | 0, r => r
  | most + 1, ⟨rest, span, place, zeros, ones, weights⟩ =>
    if span < leastSpan then
      let digit := (rest.head?.map digits.idxOf).getD 0
      refill most ⟨rest.tail, span * 89, place * 89 + digit, zeros, ones, weights⟩
    else ⟨rest, span, place, zeros, ones, weights⟩

/-- The next bit, by what is before its character and by the bits of the character itself. -/
def Reader.readBit (r : Reader) (past : Past) (contexts : List (Nat × Nat)) (bits : Nat) : Reader × Nat :=
  let found := contexts.map fun (context, i) ↦ (context * 128 + bits + 1000003 * i) % places
  let ⟨rest, span, place, zeros, ones, weights⟩ := r
  -- What each context makes of the bit, above zero for a one.
  let signs := found.zipIdx.map fun (k, i) ↦ ([bits, 128 + past.last % 128].map (9 * · + i),
      (logarithm (5 * ones.at k + 1) : Int) - logarithm (5 * zeros.at k + 1))
  let sum : Int := signs.foldl (fun n (spots, sign) ↦
    n + spots.foldl (fun weight i ↦ weight + weights[i]!) 0 * sign) 0 / 16384
  let odds := power (min sum.natAbs 3584)
  let one := if 0 ≤ sum then odds else 256
  let all := odds + 256
  let cut := span * one / all
  let isOne := place < cut
  let fault : Int := (if isOne then 4096 else 0) - (4096 * one / all : Nat)
  let weights := signs.foldl (fun ws (spots, sign) ↦
    let learned := fault * sign / 16384
    spots.foldl (fun ws i ↦ ws.modify i (· + learned)) ws) weights
  if isOne then
    let zeros := found.foldl Counts.lower zeros
    let ones := found.foldl Counts.raise ones
    (refill 5 ⟨rest, cut, place, zeros, ones, weights⟩, 1)
  else
    let zeros := found.foldl Counts.raise zeros
    let ones := found.foldl Counts.lower ones
    (refill 5 ⟨rest, span - cut, place - cut, zeros, ones, weights⟩, 0)

/-- Reads some bits of a character after those that are known; a one stands before the first. -/
def Reader.readBits (past : Past) (contexts : List (Nat × Nat)) :
    (count : Nat) → (bits : Nat) → Reader → Reader × Nat
  | 0, bits, r => (r, bits)
  | count + 1, bits, r =>
    let (r, bit) := r.readBit past contexts bits
    readBits past contexts count (2 * bits + bit) r

/-- Reads some characters of seven bits after those that have been read. -/
def Reader.readOn : (count : Nat) → Past → Array Char → Reader → Array Char
  | 0, _, done, _ => done
  | count + 1, past, done, r =>
    let (r, bits) := r.readBits past past.contexts.zipIdx 7 1
    let code := bits - 128
    readOn count (past.add code) (done.push (Char.ofNat code)) r

def read (length : Nat) (text : String) : String :=
  let none : Counts := ⟨Array.replicate places (UInt8.ofNat 0)⟩
  let start := Reader.refill 5 ⟨text.toList.filter (· != '\n'), 1, 0, none, none, .replicate 2304 1700⟩
  String.ofList (start.readOn length {} #[]).toList

end CodeAtlas.Text.Packed
