import CodeAtlas.Fault

/-!
# Comments, selectors and rules of a stylesheet

A comment is taken out, but the line feeds in it stay, so that every other character keeps its line.
An opening that is never closed opens nothing. A stylesheet is not parsed; it is searched for the
places where selectors and rules are named. A finder tells whether one starts at a given place, how
long it is and what name it gives. Matches do not overlap: the search goes on where a match ends.
-/

namespace CodeAtlas.Stylesheet

/-- The line feeds of a comment and what follows it; the list begins inside of the comment. -/
def closeComment? : List Char → Option (Nat × List Char)
  | '*' :: '/' :: rest => some (0, rest)
  | c :: rest => (closeComment? rest).map fun (n, left) ↦ (if c = '\n' then n + 1 else n, left)
  | [] => none

theorem length_of_closeComment? {cs left : List Char} {n : Nat}
    (h : closeComment? cs = some (n, left)) : left.length < cs.length := by
  fun_induction closeComment? cs generalizing n with
  | case1 rest => simp_all; omega
  | case2 c rest _ ih =>
    obtain ⟨⟨m, l⟩, hm, he⟩ := Option.map_eq_some_iff.1 h
    obtain ⟨-, rfl⟩ := Prod.mk.inj he
    have := ih hm
    simp only [List.length_cons]
    omega
  | case3 => simp at h

def stripComments : List Char → List Char
  | '/' :: '*' :: rest =>
    match h : closeComment? rest with
    | some (n, left) =>
      have := length_of_closeComment? h
      List.replicate n '\n' ++ stripComments left
    | none => '/' :: stripComments ('*' :: rest)
  | c :: rest => c :: stripComments rest
  | [] => []
termination_by cs => cs.length
decreasing_by all_goals simp_all <;> omega
open Text

/-- A match at some place: what was matched, and the name in it. -/
structure Found where
  whole : List Char
  name : List Char
deriving DecidableEq, Repr

abbrev Finder := (before : Option Char) → List Char → Option Found

def isNamePart (c : Char) : Bool := c.isAlphanum || c == '_' || c == '-'

def followedBy (kind : Char → Bool) (cs : List Char) : Bool := cs.head?.any kind

/-- A class selector: a dot and a name that ends at a blank, comma, brace or colon. -/
def classSelector : Finder
  | _, '.' :: c :: rest =>
    if c.isAlpha || c == '_' || c == '-' then
      let name := c :: rest.takeWhile isNamePart
      if followedBy (fun d ↦ isBlank d || d == ',' || d == '\x7b' || d == ':')
          (rest.dropWhile isNamePart) then some ⟨'.' :: name, name⟩
      else none
    else none
  | _, _ => none

def isHex (c : Char) : Bool := c.isDigit || ('a' ≤ c && c ≤ 'f') || ('A' ≤ c && c ≤ 'F')

/-- Whether a list starts with so many hexadecimal digits and a word ends after them. -/
def isColour (digits : Nat) (cs : List Char) : Bool :=
  (cs.take digits).length == digits && (cs.take digits).all isHex && !followedBy isWord (cs.drop digits)

/-- An id selector: a hash and a name that is no colour of three or six digits. -/
def idSelector : Finder
  | _, '#' :: c :: rest =>
    if isColour 3 (c :: rest) || isColour 6 (c :: rest) then none
    else if c.isAlpha then
      let name := c :: rest.takeWhile isNamePart
      some ⟨'#' :: name, name⟩
    else none
  | _, _ => none

def opensElement (c : Char) : Bool := !(c == '.' || c == '#' || c == '-' || isWord c)

/-- An element selector: a name that starts a word and ends at a blank, colon or brace. -/
def elementSelector : Finder
  | before, c :: rest =>
    if before.all opensElement && c.isAlpha then
      let name := c :: rest.takeWhile isNamePart
      if followedBy (fun d ↦ isBlank d || d == ':' || d == '\x7b')
          (rest.dropWhile isNamePart) then some ⟨name, name⟩
      else none
    else none
  | _, [] => none

def isQuote (c : Char) : Bool := c == '\'' || c == '"'

/-- An import rule: the word, blanks, and a quoted text on one line. -/
def importRule : Finder
  | _, cs =>
    match afterList? "@import".toList cs with
    | none => none
    | some rest =>
      let gap := rest.takeWhile isBlank
      match rest.drop gap.length with
      | q :: inner =>
        let name := inner.takeWhile fun c ↦ !(isQuote c || c == '\n')
        match inner.drop name.length with
        | r :: _ =>
          if !gap.isEmpty && isQuote q && isQuote r then
            some ⟨"@import".toList ++ gap ++ [q] ++ name ++ [r], name⟩
          else none
        | [] => none
      | [] => none

def mediaQuery : Finder
  | _, cs =>
    match afterList? "@media".toList cs with
    | none => none
    | some rest =>
      let gap := rest.takeWhile isBlank
      match rest.drop gap.length with
      | '(' :: inner =>
        let name := inner.takeWhile (· != ')')
        match inner.drop name.length with
        | ')' :: _ =>
          if name.isEmpty then none
          else some ⟨"@media".toList ++ gap ++ ['('] ++ name ++ [')'], name⟩
        | _ => none
      | _ => none

def animation : Finder
  | _, cs =>
    match afterList? "@keyframes".toList cs with
    | none => none
    | some rest =>
      let gap := rest.takeWhile isBlank
      match rest.drop gap.length with
      | c :: inner =>
        if !gap.isEmpty && c.isAlpha then
          let name := c :: inner.takeWhile isNamePart
          some ⟨"@keyframes".toList ++ gap ++ name, name⟩
        else none
      | [] => none

/-- The state that a selector is followed by: a colon and letters or hyphens. -/
def pseudoState? : List Char → Option (List Char)
  | ':' :: rest =>
    let name := rest.takeWhile fun c ↦ c.isAlpha || c == '-'
    if name.isEmpty then none else some name
  | _ => none

structure Match where
  found : Found
  line : Nat
  rest : List Char

/-- All matches of a finder, from left to right. -/
def matchesFrom (finder : Finder) : (steps : Nat) → (line : Nat) → (before : Option Char) →
    List Char → List Match
  | 0, _, _, _ => []
  | _, _, _, [] => []
  | steps + 1, line, before, c :: rest =>
    match finder before (c :: rest) with
    | some found =>
      if found.whole.isEmpty then []
      else
        let left := (c :: rest).drop found.whole.length
        ⟨found, line, left⟩ ::
          matchesFrom finder steps (line + countLines found.whole) found.whole.getLast? left
    | none => matchesFrom finder steps (if c = '\n' then line + 1 else line) (some c) rest

def findAll (finder : Finder) (cs : List Char) : List Match :=
  matchesFrom finder cs.length 1 none cs

/-- The finders that a mapping may ask for, by the patterns that describe them. -/
def finders : List (String × Finder) :=
  [("\\.([a-zA-Z_-][a-zA-Z0-9_-]*)(?=[\\s,\\\x7b:])", classSelector),
   ("#(?!(?:[a-fA-F0-9]\x7b3\x7d|[a-fA-F0-9]\x7b6\x7d)\\b)([a-zA-Z][a-zA-Z0-9_-]*)", idSelector),
   ("(?<![\\.#-])\\b([a-zA-Z][a-zA-Z0-9_-]*)(?=[\\s:\\\x7b])", elementSelector),
   ("@import\\s+['\"](.*?)['\"]", importRule)]

end CodeAtlas.Stylesheet
