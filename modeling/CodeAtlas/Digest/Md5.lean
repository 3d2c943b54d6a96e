import CodeAtlas.Text.Search

/-!
# The MD5 digest

The digest of a byte sequence: padding to whole blocks, and four rounds of sixteen steps on four
words for each block. The digest serves to tell versions of a file apart.
-/

namespace CodeAtlas.Md5

def shifts : Array UInt32 :=
  #[7, 12, 17, 22, 7, 12, 17, 22, 7, 12, 17, 22, 7, 12, 17, 22,
    5, 9, 14, 20, 5, 9, 14, 20, 5, 9, 14, 20, 5, 9, 14, 20,
    4, 11, 16, 23, 4, 11, 16, 23, 4, 11, 16, 23, 4, 11, 16, 23,
    6, 10, 15, 21, 6, 10, 15, 21, 6, 10, 15, 21, 6, 10, 15, 21]

/-- The constant of each step: the whole part of `2 ^ 32 * |sin (i + 1)|`. -/
def constants : Array UInt32 :=
  #[0xd76aa478, 0xe8c7b756, 0x242070db, 0xc1bdceee, 0xf57c0faf, 0x4787c62a,
    0xa8304613, 0xfd469501, 0x698098d8, 0x8b44f7af, 0xffff5bb1, 0x895cd7be,
    0x6b901122, 0xfd987193, 0xa679438e, 0x49b40821, 0xf61e2562, 0xc040b340,
    0x265e5a51, 0xe9b6c7aa, 0xd62f105d, 0x02441453, 0xd8a1e681, 0xe7d3fbc8,
    0x21e1cde6, 0xc33707d6, 0xf4d50d87, 0x455a14ed, 0xa9e3e905, 0xfcefa3f8,
    0x676f02d9, 0x8d2a4c8a, 0xfffa3942, 0x8771f681, 0x6d9d6122, 0xfde5380c,
    0xa4beea44, 0x4bdecfa9, 0xf6bb4b60, 0xbebfbc70, 0x289b7ec6, 0xeaa127fa,
    0xd4ef3085, 0x04881d05, 0xd9d4d039, 0xe6db99e5, 0x1fa27cf8, 0xc4ac5665,
    0xf4292244, 0x432aff97, 0xab9423a7, 0xfc93a039, 0x655b59c3, 0x8f0ccc92,
    0xffeff47d, 0x85845dd1, 0x6fa87e4f, 0xfe2ce6e0, 0xa3014314, 0x4e0811a1,
    0xf7537e82, 0xbd3af235, 0x2ad7d2bb, 0xeb86d391]

structure State where
  a : UInt32 := 0x67452301
  b : UInt32 := 0xefcdab89
  c : UInt32 := 0x98badcfe
  d : UInt32 := 0x10325476

def rotate (x n : UInt32) : UInt32 := (x <<< n) ||| (x >>> (32 - n))

def step (block : Array UInt32) (s : State) (i : Nat) : State :=
  let (f, g) :=
    if i < 16 then ((s.b &&& s.c) ||| ((s.b ^^^ 0xFFFFFFFF) &&& s.d), i)
    else if i < 32 then ((s.d &&& s.b) ||| ((s.d ^^^ 0xFFFFFFFF) &&& s.c), (5 * i + 1) % 16)
    else if i < 48 then (s.b ^^^ s.c ^^^ s.d, (3 * i + 5) % 16)
    else (s.c ^^^ (s.b ||| (s.d ^^^ 0xFFFFFFFF)), (7 * i) % 16)
  let sum := f + s.a + (constants[i]?).getD 0 + (block[g]?).getD 0
  { a := s.d, b := s.b + rotate sum ((shifts[i]?).getD 0), c := s.b, d := s.c }

def addBlock (s : State) (block : Array UInt32) : State :=
  let t := (List.range 64).foldl (step block) s
  { a := s.a + t.a, b := s.b + t.b, c := s.c + t.c, d := s.d + t.d }

/-- The message, a single one bit, zeros, and the length in bits, in whole blocks of 64 bytes. -/
def pad (bytes : ByteArray) : ByteArray :=
  let n := bytes.size
  let zeros := (119 - n % 64) % 64
  let padded := (List.range zeros).foldl (fun acc _ ↦ acc.push 0) (bytes.push 0x80)
  (List.range 8).foldl (fun acc i ↦ acc.push (8 * n / Nat.pow 256 i).toUInt8) padded

def word (bytes : ByteArray) (at' : Nat) : UInt32 :=
  let byte (i : Nat) : Nat := if h : at' + i < bytes.size then bytes[at' + i].toNat else 0
  (byte 0 + byte 1 * 0x100 + byte 2 * 0x10000 + byte 3 * 0x1000000).toUInt32

def run (bytes : ByteArray) : State :=
  let padded := pad bytes
  (List.range (padded.size / 64)).foldl (fun s i ↦
    addBlock s ((List.range 16).map fun j ↦ word padded (64 * i + 4 * j)).toArray) {}

def wordText (x : UInt32) : String :=
  (List.range 4).foldl (fun acc i ↦ acc ++ Text.hexDigits 2 (x.toNat / Nat.pow 256 i % 256)) ""

def hex (bytes : ByteArray) : String :=
  let s := run bytes
  wordText s.a ++ wordText s.b ++ wordText s.c ++ wordText s.d

def ofText (s : String) : String := hex s.toUTF8

end CodeAtlas.Md5
