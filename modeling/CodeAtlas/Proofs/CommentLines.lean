import CodeAtlas.Stylesheet.Selector
import CodeAtlas.Proofs.SeparateFiles

/-!
# Lines of a text without its comments

A text is made up of comments and of characters outside of them. Without the comments each character
outside has as many line feeds before it as in the text itself. What is found in the stripped text
starts with such a character, so it is on the line on which it is in the text.
-/

namespace CodeAtlas.Stylesheet

open List

variable {cs rest inner : List Char} {finder : Finder} {m : Match}

/-- An opening, a text without a closing in it, and a closing. -/
def IsComment (cs : List Char) : Prop := ∃ inner, cs = '/' :: '*' :: (inner ++ ['*', '/']) ∧
    ¬['*', '/'] <:+: inner

lemma closeComment?_append (h : ¬['*', '/'] <:+: inner) (rest : List Char) :
    closeComment? (inner ++ '*' :: '/' :: rest) = some (inner.count '\n', rest) := by
  induction inner with
  | nil => rfl
  | cons c inner ih =>
    obtain ⟨hstart, hinner⟩ := not_or.1 (mt infix_cons_iff.2 h)
    have hopen : ∀ after, ¬(c = '*' ∧ inner ++ '*' :: '/' :: rest = '/' :: after) := by
      rintro after ⟨rfl, heq⟩
      cases inner with
      | nil => cases heq
      | cons d inner =>
        cases heq
        exact hstart ⟨inner, rfl⟩
    rw [cons_append, closeComment?, ih hinner, count_cons]
    · by_cases hc : c = '\n' <;> simp [hc]
    · exact fun after hc heq ↦ hopen after ⟨hc, heq⟩

lemma exists_of_closeComment? {n : Nat} (h : closeComment? cs = some (n, rest)) :
    ∃ inner, cs = inner ++ '*' :: '/' :: rest ∧ ¬['*', '/'] <:+: inner := by
  fun_induction closeComment? cs generalizing n with
  | case1 after =>
    cases h
    exact ⟨[], rfl, by simp⟩
  | case2 c after hopen ih =>
    obtain ⟨⟨k, left⟩, hk, heq⟩ := Option.map_eq_some_iff.1 h
    cases heq
    obtain ⟨inner, rfl, hinner⟩ := ih hk
    refine ⟨c :: inner, rfl, fun hclosing ↦ ?_⟩
    rcases infix_cons_iff.1 hclosing with hstart | hinfix
    · obtain ⟨tail, heq⟩ := hstart
      cases heq
      exact hopen _ rfl rfl
    · exact hinner hinfix
  | case3 => cases h

inductive Piece
  | comment (cs : List Char)
  | outside (c : Char)

def Piece.text : Piece → List Char
  | .comment cs => cs
  | .outside c => [c]

/-- What is left of a piece without comments. -/
def Piece.left : Piece → List Char
  | .comment cs => replicate (cs.count '\n') '\n'
  | .outside c => [c]

def textOf (ps : List Piece) : List Char := ps.flatMap Piece.text

def leftOf (ps : List Piece) : List Char := ps.flatMap Piece.left

/-- The pieces of a text. -/
inductive Pieces : List Char → List Piece → Prop
  | nil : Pieces [] []
  | comment {cs rest : List Char} {ps : List Piece} (h : IsComment cs) (hrest : Pieces rest ps) :
      Pieces (cs ++ rest) (.comment cs :: ps)
  | outside {c : Char} {rest : List Char} {ps : List Piece}
      (h : ∀ cs, IsComment cs → ¬cs <+: c :: rest)
      (hrest : Pieces rest ps) : Pieces (c :: rest) (.outside c :: ps)

variable {ps : List Piece}

lemma stripComments_comment (h : IsComment cs) (rest : List Char) :
    stripComments (cs ++ rest) = replicate (cs.count '\n') '\n' ++ stripComments rest := by
  obtain ⟨inner, rfl, hinner⟩ := h
  have hclose := closeComment?_append hinner rest
  have hcount : ('/' :: '*' :: (inner ++ ['*', '/'])).count '\n' = inner.count '\n' := by simp
  rw [hcount, cons_append, cons_append, append_assoc, cons_append, cons_append,
    nil_append, stripComments]
  split
  next heq =>
    cases hclose.symm.trans heq
    rfl
  next heq => cases hclose.symm.trans heq

lemma stripComments_outside {c : Char} (h : ∀ cs, IsComment cs → ¬cs <+: c :: rest) :
    stripComments (c :: rest) = c :: stripComments rest := by
  by_cases hopen : c = '/' ∧ ∃ after, rest = '*' :: after
  · obtain ⟨rfl, after, rfl⟩ := hopen
    rw [stripComments]
    split
    next left hclose =>
      obtain ⟨inner, rfl, hinner⟩ := exists_of_closeComment? hclose
      exact absurd ⟨left, by simp⟩ (h _ ⟨inner, rfl, hinner⟩)
    next => rfl
  · rw [stripComments]
    exact fun after hc heq ↦ hopen ⟨hc, after, heq⟩

lemma exists_pieces (cs : List Char) : ∃ ps, Pieces cs ps := by
  have hnone {c : Char} {after : List Char}
    (h : ∀ rest, c = '/' → after = '*' :: rest → closeComment? rest = none)
      (cs : List Char) (hcs : IsComment cs) : ¬cs <+: c :: after := by
    rintro ⟨tail, heq⟩
    obtain ⟨inner, rfl, hinner⟩ := hcs
    cases heq
    have hclose := h (inner ++ ['*', '/'] ++ tail) rfl rfl
    rw [append_assoc] at hclose
    cases hclose.symm.trans (closeComment?_append hinner tail)
  fun_induction stripComments cs with
  | case1 after n left hclose hlength ih =>
    obtain ⟨ps, hps⟩ := ih
    obtain ⟨inner, rfl, hinner⟩ := exists_of_closeComment? hclose
    exact ⟨_, by simpa using Pieces.comment ⟨inner, rfl, hinner⟩ hps⟩
  | case2 after hclose ih =>
    obtain ⟨ps, hps⟩ := ih
    refine ⟨_, .outside (hnone fun rest _ heq ↦ ?_) hps⟩
    cases heq
    exact hclose
  | case3 c after hopen ih =>
    obtain ⟨ps, hps⟩ := ih
    exact ⟨_, .outside (hnone fun rest hc heq ↦ (hopen rest hc heq).elim) hps⟩
  | case4 => exact ⟨[], .nil⟩

lemma Pieces.textOf_eq (h : Pieces cs ps) : textOf ps = cs := by
  induction h with
  | nil => rfl
  | comment _ _ ih => rw [textOf, flatMap_cons, ← textOf, ih, Piece.text]
  | outside _ _ ih => rw [textOf, flatMap_cons, ← textOf, ih, Piece.text, singleton_append]

lemma Pieces.stripComments_eq (h : Pieces cs ps) : stripComments cs = leftOf ps := by
  induction h with
  | nil => rw [stripComments]; rfl
  | comment hcs _ ih => rw [stripComments_comment hcs, ih, leftOf, leftOf, flatMap_cons, Piece.left]
  | outside hc _ ih =>
    rw [stripComments_outside hc, ih, leftOf, leftOf, flatMap_cons, Piece.left, singleton_append]

lemma count_leftOf (ps : List Piece) : (leftOf ps).count '\n' = (textOf ps).count '\n' := by
  have hpiece (p : Piece) : p.left.count '\n' = p.text.count '\n' := by
    cases p with
    | comment cs => exact count_replicate_self
    | outside c => rfl
  rw [leftOf, textOf, count_flatMap, count_flatMap]
  congr 1
  exact map_congr_left fun p _ ↦ hpiece p

/-- Any other character than a line feed is from outside of the comments. -/
lemma exists_outside {before after : List Char} {c : Char} (hc : c ≠ '\n')
    (h : leftOf ps = before ++ c :: after) : ∃ qs rs, ps = qs ++ .outside c :: rs ∧
    leftOf qs = before ∧
      leftOf rs = after := by
  induction ps generalizing before with
  | nil => cases before <;> cases h
  | cons p ps ih =>
    rcases append_eq_append_iff.1 h with ⟨front, rfl, hrest⟩ | ⟨back, hleft, hrest⟩
    · obtain ⟨qs, rs, rfl, rfl, rfl⟩ := ih hrest
      exact ⟨p :: qs, rs, rfl, rfl, rfl⟩
    · cases back with
      | nil =>
        obtain ⟨qs, rs, rfl, hqs, rfl⟩ := @ih [] hrest.symm
        refine ⟨p :: qs, rs, rfl, ?_, rfl⟩
        rw [leftOf, flatMap_cons, ← leftOf, hqs, hleft, append_nil, append_nil]
      | cons d back =>
        obtain ⟨rfl, rfl⟩ := cons.inj hrest
        cases p with
        | comment cs =>
          exact absurd (eq_of_mem_replicate (hleft ▸ mem_append_right _ mem_cons_self)) hc
        | outside d =>
          cases before with
          | nil =>
            cases hleft
            exact ⟨[], ps, rfl, rfl, rfl⟩
          | cons e before => cases before <;> cases hleft

/-- A finder that finds what stands there, and nothing that starts with a line feed. -/
def Finder.IsFaithful (finder : Finder) : Prop :=
  ∀ before cs found, finder before cs = some found →
    found.whole <+: cs ∧ ∃ c rest, found.whole = c :: rest ∧ c ≠ '\n'

lemma isFaithful_classSelector : Finder.IsFaithful classSelector := by
  intro before cs found
  fun_cases classSelector before cs with
  | case1 _ c rest hc name hend =>
    rintro ⟨⟩
    exact ⟨by simpa [name] using takeWhile_prefix _, _, _, rfl, by decide⟩
  | _ => exact fun h ↦ (by cases h)

lemma isFaithful_idSelector : Finder.IsFaithful idSelector := by
  intro before cs found
  fun_cases idSelector before cs with
  | case2 _ c rest hcolour hc name =>
    rintro ⟨⟩
    exact ⟨by simpa [name] using takeWhile_prefix _, _, _, rfl, by decide⟩
  | _ => exact fun h ↦ (by cases h)

lemma isFaithful_elementSelector : Finder.IsFaithful elementSelector := by
  intro before cs found
  fun_cases elementSelector before cs with
  | case1 _ c rest hc name hend =>
    rintro ⟨⟩
    refine ⟨by simpa [name] using takeWhile_prefix _, _, _, rfl, ?_⟩
    rintro rfl
    simp [Char.isAlpha, Char.isUpper, Char.isLower] at hc
  | _ => exact fun h ↦ (by cases h)

lemma isFaithful_importRule : Finder.IsFaithful importRule := by
  intro before cs found
  fun_cases importRule before cs with
  | case2 _ _ rest hafter gap q inner hinner name r tail htail hquoted =>
    rintro ⟨⟩
    have hgap : gap ++ q :: inner = rest := hinner ▸ prefix_iff_eq_append.1 ( takeWhile_prefix _)
    have hname : name ++ r :: tail = inner := htail ▸ prefix_iff_eq_append.1 ( takeWhile_prefix _)
    rw [← Build.append_of_afterList? hafter, ← hgap, ← hname]
    simp
  | _ => exact fun h ↦ (by cases h)

lemma isFaithful_of_mem {e : String × Finder} (he : e ∈ finders) : e.2.IsFaithful := by
  simp only [finders, mem_cons, not_mem_nil, or_false] at he
  rcases he with rfl | rfl | rfl | rfl
  · exact isFaithful_classSelector
  · exact isFaithful_idSelector
  · exact isFaithful_elementSelector
  · exact isFaithful_importRule

lemma mem_matchesFrom (hfinder : finder.IsFaithful) {steps line : Nat} {before : Option Char}
    (hm : m ∈ matchesFrom finder steps line before cs) : ∃ front,
      cs = front ++ (m.found.whole ++ m.rest) ∧ m.line = front.count '\n' + line ∧
      ∃ before, finder before (m.found.whole ++ m.rest) = some m.found := by
  induction steps generalizing line before cs with
  | zero => cases cs <;> cases hm
  | succ steps ih =>
    cases cs with
    | nil => cases hm
    | cons c rest =>
      rw [matchesFrom] at hm
      split at hm
      next found hfound =>
        split at hm
        · cases hm
        · obtain ⟨⟨left, hleft⟩, -⟩ := hfinder _ _ _ hfound
          rw [← hleft, drop_left] at hm
          rcases mem_cons.1 hm with rfl | hm
          · exact ⟨[], hleft.symm, (Nat.zero_add _).symm, before, by rw [hleft, hfound]⟩
          · obtain ⟨front, hfront, hline, hstart⟩ := ih hm
            refine ⟨found.whole ++ front, ?_, ?_, hstart⟩
            · rw [← hleft, hfront, append_assoc]
            · rw [hline, count_append, Text.countLines]
              omega
      next =>
        obtain ⟨front, hfront, hline, hstart⟩ := ih hm
        refine ⟨c :: front, by rw [hfront, cons_append], ?_, hstart⟩
        rw [hline, count_cons]
        by_cases hc : c = '\n' <;> simp [hc]
        omega

/-- A match in a text without comments starts in the text itself after some characters. -/
def Match.StartsAfter (m : Match) (cs front : List Char) : Prop :=
  ∃ before c after, Pieces cs (before ++ .outside c :: after) ∧ front = textOf before ∧
    m.found.whole ++ m.rest = c :: leftOf after

lemma exists_startsAfter {pattern : String} (hfinder : (pattern, finder) ∈ finders)
    (hm : m ∈ findAll finder (stripComments cs)) :
    ∃ front, m.StartsAfter cs front ∧ m.line = front.count '\n' + 1 := by
  obtain ⟨front, hfront, hline, before, hfound⟩ := mem_matchesFrom (isFaithful_of_mem hfinder) hm
  obtain ⟨-, c, rest, hwhole, hc⟩ := isFaithful_of_mem hfinder _ _ _ hfound
  obtain ⟨ps, hps⟩ := exists_pieces cs
  rw [hwhole, cons_append, hps.stripComments_eq] at hfront
  obtain ⟨qs, rs, rfl, rfl, hrest⟩ := exists_outside hc hfront
  refine ⟨_, ⟨qs, c, rs, hps, rfl, ?_⟩, ?_⟩
  · rw [hwhole, hrest, cons_append]
  · rw [hline, count_leftOf]

end CodeAtlas.Stylesheet
