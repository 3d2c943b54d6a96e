import CodeAtlas.Build.Scan
import CodeAtlas.Proofs.Sessions
import CodeAtlas.Proofs.TableLaws

/-!
# Places in a tree, and what a scan finds

A path from the root whose names are plain leads to the place of these names, if it leads anywhere,
and it can be read back from its text. What is written, made or taken away at one place leaves all
other places as they are, apart from those below one that is taken away.

A scan lists what stands below a directory, in the order of the names that lead there. An excluded
name rules out all that has it on the way from the root, so it makes a difference where the
directory itself lies: if the way to it has an excluded name, the scan finds nothing. Otherwise it
finds what the names below the directory decide.
-/

namespace CodeAtlas

open List CodeAtlas.Path

variable {p : Path}

/-- A name that a directory can list. -/
structure IsName (n : String) : Prop where
  ne_empty : n ≠ ""
  ne_dot : n ≠ "."
  ne_dots : n ≠ ".."
  slash : '/' ∉ n.toList

namespace Path

variable {parts : List String} {cs : List Char} {n : String}

/-- A path from the root by plain names. -/
structure IsPlace (p : Path) : Prop where
  root : p.root = "/"
  names : ∀ n ∈ p.parts, IsName n

lemma splitSlashes_ne_nil (cs : List Char) : splitSlashes cs ≠ [] := by
  induction cs with
  | nil => exact cons_ne_nil _ _
  | cons c rest ih =>
    rw [splitSlashes]
    split
    · exact cons_ne_nil _ _
    · split <;> exact cons_ne_nil _ _

lemma splitSlashes_of_notMem (h : '/' ∉ cs) : splitSlashes cs = [cs] := by
  induction cs with
  | nil => rfl
  | cons c rest ih =>
    rw [mem_cons, not_or] at h
    rw [splitSlashes, ih h.2]
    exact if_neg (Ne.symm h.1)

lemma splitSlashes_append (h : '/' ∉ cs) (rest : List Char) :
    splitSlashes (cs ++ '/' :: rest) = cs :: splitSlashes rest := by
  induction cs with
  | nil =>
    rw [nil_append, splitSlashes]
    obtain ⟨name, more, hsplit⟩ := exists_cons_of_ne_nil (splitSlashes_ne_nil rest)
    rw [hsplit]
    rfl
  | cons c cs ih =>
    rw [mem_cons, not_or] at h
    rw [cons_append, splitSlashes, ih h.2]
    exact if_neg (Ne.symm h.1)

lemma names_intercalate (hparts : parts ≠ []) (h : ∀ n ∈ parts, '/' ∉ n.toList) :
    names (String.intercalate "/" parts) = parts := by
  induction parts with
  | nil => exact absurd rfl hparts
  | cons n rest ih =>
    rw [forall_mem_cons] at h
    cases rest with
    | nil =>
      rw [String.intercalate_singleton, names, splitSlashes_of_notMem h.1, map_singleton,
        String.ofList_toList]
    | cons m rest =>
      have htext : (String.intercalate "/" (n :: m :: rest)).toList =
          n.toList ++ '/' :: (String.intercalate "/" (m :: rest)).toList := by
        simp
      have hrest := ih (cons_ne_nil _ _) h.2
      rw [names] at hrest
      rw [names, htext, splitSlashes_append h.1, map_cons, hrest, String.ofList_toList]

/-- A slash before the names of a path marks the root, and nothing else does. -/
lemma rootOf_cons (h : cs.head? ≠ some '/') : rootOf ('/' :: cs) = "/" := by
  cases cs with
  | nil => rfl
  | cons c rest =>
    have hc : c ≠ '/' := fun heq ↦ h (congrArg some heq)
    unfold rootOf
    split
    next heq => exact absurd (cons.inj (cons.inj heq).2).1 hc
    next heq => exact absurd (cons.inj (cons.inj heq).2).1 hc
    next => rfl
    next _ _ hnone => exact absurd rfl (hnone (c :: rest))

lemma head?_intercalate (h : n ≠ "") (rest : List String) :
    (String.intercalate "/" (n :: rest)).toList.head? = n.toList.head? := by
  have hn : n.toList ≠ [] := fun heq ↦ h (String.toList_eq_nil_iff.1 heq)
  cases rest with
  | nil => rw [String.intercalate_singleton]
  | cons m rest =>
    rw [String.intercalate_cons_cons, String.toList_append, String.toList_append, append_assoc,
      head?_append_of_ne_nil _ hn]

namespace IsPlace

variable {p : Path}

lemma ofText_text (h : p.IsPlace) : ofText p.text = p := by
  obtain ⟨root, parts⟩ := p
  obtain ⟨rfl, hnames⟩ := h
  cases parts with
  | nil => decide
  | cons n rest =>
    have htext : (text ⟨"/", n :: rest⟩).toList = '/' ::
        (String.intercalate "/" (n :: rest)).toList := by
      simp [text]
    have hfirst := hnames n mem_cons_self
    have hslash : ∀ m ∈ n :: rest, '/' ∉ m.toList := fun m hm ↦ (hnames m hm).slash
    have hroot : rootOf (text ⟨"/", n :: rest⟩).toList = "/" := by
      rw [htext]
      apply rootOf_cons
      rw [head?_intercalate hfirst.ne_empty]
      exact fun hhead ↦ hfirst.slash (mem_of_head? hhead)
    have hparts : Path.names (text ⟨"/", n :: rest⟩) = "" :: n :: rest := by
      have hrest := names_intercalate (cons_ne_nil n rest) hslash
      rw [Path.names] at hrest
      rw [Path.names, htext, ← nil_append ('/' :: _), splitSlashes_append not_mem_nil,
        map_cons, hrest, String.ofList_nil]
    rw [ofText, hroot, hparts]
    congr 1
    rw [filter_cons_of_neg (by decide), filter_eq_self]
    intro m hm
    simp [(hnames m hm).ne_empty, (hnames m hm).ne_dot]

lemma join (h : p.IsPlace) (cwd : Path) : cwd.join p = p :=
  if_pos (by rw [isAbsolute, h.root]; rfl)

lemma parent (h : p.IsPlace) : p.parent.IsPlace :=
  ⟨h.root, fun n hn ↦ h.names n (dropLast_subset _ hn)⟩

lemma below (h : p.IsPlace) (hn : IsName n) : (⟨p.root, p.parts ++ [n]⟩ : Path).IsPlace := by
  refine ⟨h.root, fun m hm ↦ ?_⟩
  rcases mem_append.1 hm with hm | hm
  · exact h.names m hm
  · rw [mem_singleton.1 hm]
    exact hn

end IsPlace

lemma foldl_of_no_dots (h : ∀ n ∈ parts, n ≠ "..") (done : List String) :
    parts.foldl (fun done n ↦ if n = ".." then done.dropLast else done ++ [n]) done =
    done ++ parts := by
  induction parts generalizing done with
  | nil => rw [foldl_nil, append_nil]
  | cons n rest ih =>
    rw [forall_mem_cons] at h
    rw [foldl_cons, if_neg h.1, ih h.2, append_assoc, singleton_append]

lemma collapse_of_no_dots (h : ∀ n ∈ parts, n ≠ "..") : collapse parts = parts :=
  foldl_of_no_dots h []

lemma IsPlace.collapse (h : p.IsPlace) : collapse p.parts = p.parts :=
  collapse_of_no_dots fun n hn ↦ (h.names n hn).ne_dots

lemma IsPlace.resolve (h : p.IsPlace) (cwd : Path) : p.resolve cwd = p := by
  rw [Path.resolve, h.join, h.collapse, ← h.root]

lemma below_of_isName (h : IsName n) : p.below n = ⟨p.root, p.parts ++ [n]⟩ := by
  have hn : n.toList ≠ [] := fun heq ↦ h.ne_empty (String.toList_eq_nil_iff.1 heq)
  have hroot : rootOf n.toList = "" := by
    obtain ⟨c, rest, hcs⟩ := exists_cons_of_ne_nil hn
    have hc : c ≠ '/' := by
      rintro rfl
      exact h.slash (hcs ▸ mem_cons_self)
    rw [hcs]
    unfold rootOf
    split
    next heq => exact absurd (cons.inj heq).1 hc
    next heq => exact absurd (cons.inj heq).1 hc
    next heq => exact absurd (cons.inj heq).1 hc
    next => rfl
  have hparts : names n = [n] := by
    rw [names, splitSlashes_of_notMem h.slash, map_singleton, String.ofList_toList]
  have hofText : ofText n = ⟨"", [n]⟩ := by
    rw [ofText, hroot, hparts]
    congr 1
    rw [filter_eq_self]
    intro m hm
    rw [mem_singleton.1 hm]
    simp [h.ne_empty, h.ne_dot]
  rw [below, hofText]
  rfl

lemma slash_notMem_splitSlashes {n : List Char} (h : n ∈ splitSlashes cs) : '/' ∉ n := by
  induction cs generalizing n with
  | nil =>
    rw [mem_singleton.1 h]
    exact not_mem_nil
  | cons c rest ih =>
    obtain ⟨name, more, hsplit⟩ := exists_cons_of_ne_nil (splitSlashes_ne_nil rest)
    rw [hsplit] at ih
    rw [splitSlashes, hsplit] at h
    dsimp only at h
    split at h
    · rcases mem_cons.1 h with rfl | h
      · exact not_mem_nil
      · exact ih h
    next hc =>
      rcases mem_cons.1 h with rfl | h
      · exact not_mem_cons_of_ne_of_not_mem (Ne.symm hc) (ih mem_cons_self)
      · exact ih (mem_cons_of_mem _ h)

/-- The names that lead below a path hold no slashes if those of the path hold none. -/
lemma slash_notMem_below (hp : ∀ n ∈ p.parts, '/' ∉ n.toList) (text : String) :
    ∀ n ∈ (p.below text).parts, '/' ∉ n.toList := by
  have hnames : ∀ n ∈ (ofText text).parts, '/' ∉ n.toList := by
    intro n hn
    obtain ⟨cs, hcs, rfl⟩ := mem_map.1 (mem_filter.1 hn).1
    rw [String.toList_ofList]
    exact slash_notMem_splitSlashes hcs
  rw [below, join]
  split
  · exact hnames
  · intro n hn
    rcases mem_append.1 hn with hn | hn
    · exact hp n hn
    · exact hnames n hn

lemma slash_notMem_stem (hp : ∀ n ∈ p.parts, '/' ∉ n.toList) : '/' ∉ p.stem.toList := by
  have hname : '/' ∉ p.name.toList := by
    rw [name, getLastD_eq_getLast?]
    cases hlast : p.parts.getLast? with
    | none => exact not_mem_nil
    | some n => exact hp n (mem_of_getLast? hlast)
  rw [stem, splitEnding]
  split
  · exact hname
  · rw [String.toList_ofList, mem_reverse]
    exact fun h ↦ hname (mem_reverse.1 (mem_of_mem_drop h))

end Path

namespace Tree

variable {t t' : Tree} {spot other : List String} {shown : String} {b : ByteArray}

lemma follow_eq {here names : List String} (h : t.follow here names = .ok spot) :
    spot = names.foldl (fun done n ↦ if n = ".." then done.dropLast else done ++ [n]) here := by
  induction names generalizing here with
  | nil => exact (Except.ok.inj h).symm
  | cons n rest ih =>
    rw [follow] at h
    split at h
    · split at h
      · cases h
      · exact ih h
    all_goals cases h

lemma locate_eq (h : t.locate p = .ok spot) : spot = collapse p.parts := by
  rw [locate] at h
  split at h
  · cases h
  · exact follow_eq h

lemma locate_of_isDirectory (h : t.isDirectory p = true) :
    ∃ spot, t.locate p = .ok spot ∧ t.entry? spot = some .directory := by
  rw [isDirectory, find?] at h
  cases hlocate : t.locate p with
  | error m =>
    rw [hlocate] at h
    cases h
  | ok spot =>
    rw [hlocate] at h
    refine ⟨spot, rfl, ?_⟩
    split at h
    next hentry => exact hentry
    next => cases h

lemma exists_of_mem_children {q : Path} (h : q ∈ t.children p) :
    ∃ n, q = ⟨p.root, p.parts ++ [n]⟩ := by
  obtain ⟨hbelow, hlength⟩ := mem_filter.1 h
  obtain ⟨rest, rfl⟩ : ∃ rest, q = ⟨p.root, p.parts ++ rest⟩ := by
    rw [below] at hbelow
    split at hbelow
    · cases hbelow
    · split at hbelow
      · obtain ⟨entry, -, rfl⟩ := mem_map.1 hbelow
        exact ⟨_, rfl⟩
      · cases hbelow
  have hone : rest.length = 1 := by
    rw [beq_iff_eq, length_append] at hlength
    omega
  obtain ⟨n, rfl⟩ := length_eq_one_iff.1 hone
  exact ⟨n, rfl⟩

lemma entry?_nil : t.entry? [] = some .directory := rfl

lemma entry?_of_ne_nil (h : spot ≠ []) : t.entry? spot = t.entries.get? spot :=
  if_neg (by rwa [List.isEmpty_iff])

lemma entry?_set_self (h : spot ≠ []) (e : Entry) : Tree.entry? (t.set spot e) spot = some e := by
  rw [entry?_of_ne_nil h]
  exact Table.get?_put_self _ _ _

lemma entry?_set_of_ne (h : other ≠ spot) (e : Entry) :
    Tree.entry? (t.set spot e) other = t.entry? other := by
  cases other with
  | nil => rfl
  | cons n rest =>
    exact Table.get?_put_of_ne h

lemma exists_of_write (h : t.write p shown b = .ok t') :
    ∃ spot, t.locate p = .ok spot ∧ spot ≠ [] ∧ t' = t.set spot (.file b) := by
  rw [write] at h
  split at h
  next => cases h
  next spot hlocate =>
    split at h
    next => cases h
    next hnot =>
      have hne : spot ≠ [] := by
        rintro rfl
        exact hnot entry?_nil
      split at h
      · exact ⟨spot, hlocate, hne, (Except.ok.inj h).symm⟩
      all_goals cases h

lemma entry?_of_write (h : t.write p shown b = .ok t') :
    t'.entry? (collapse p.parts) = some (.file b) := by
  obtain ⟨spot, hlocate, hne, rfl⟩ := exists_of_write h
  rw [← locate_eq hlocate, entry?_set_self hne]

lemma entry?_of_write_of_ne (h : t.write p shown b = .ok t') (hne : other ≠ collapse p.parts) :
    t'.entry? other = t.entry? other := by
  obtain ⟨spot, hlocate, -, rfl⟩ := exists_of_write h
  exact entry?_set_of_ne (locate_eq hlocate ▸ hne) _

lemma entry?_of_makeDirectory (h : t.makeDirectory p shown = .ok t')
    (hne : other ≠ collapse p.parts) : t'.entry? other = t.entry? other := by
  rw [makeDirectory] at h
  split at h
  next => cases h
  next spot hlocate =>
    split at h
    next => cases h
    next =>
      split at h
      · cases h
        exact entry?_set_of_ne (locate_eq hlocate ▸ hne) _
      all_goals cases h

lemma entry?_of_makeDirectories {cwd : Path} {steps : Nat} (hp : p.IsPlace)
    (h : makeDirectories cwd steps t p = .ok t') (hother : ¬other <+: p.parts) :
    t'.entry? other = t.entry? other := by
  have hne {q : Path} (hq : q.IsPlace) (hnot : ¬other <+: q.parts) : other ≠ collapse q.parts := by
    intro heq
    rw [heq, hq.collapse] at hnot
    exact hnot prefix_rfl
  induction steps generalizing t t' p with
  | zero => cases h
  | succ steps ih =>
    rw [makeDirectories, hp.join] at h
    split at h
    next made hmade =>
      cases h
      exact entry?_of_makeDirectory hmade (hne hp hother)
    next =>
      split at h
      · cases h
      · split at h
        · cases h
        next above habove =>
          have hparent : ¬other <+: p.parent.parts :=
            fun habove ↦ hother (habove.trans ( dropLast_prefix _))
          have hkept := ih hp.parent habove hparent
          split at h
          next made hmade =>
            cases h
            rw [entry?_of_makeDirectory hmade (hne hp hother), hkept]
          next =>
            split at h
            · cases h
              exact hkept
            · cases h
    next =>
      split at h
      · cases h
        rfl
      · cases h

lemma ensureDirectory_of_isDirectory {cwd : Path} (h : t.isDirectory (cwd.join p) = true) :
    ensureDirectory cwd t p = .ok t := by
  obtain ⟨spot, hlocate, hentry⟩ := locate_of_isDirectory h
  have hmake : t.makeDirectory (cwd.join p) p.text = .error (.alreadyExists p.text) := by
    rw [makeDirectory, hlocate]
    dsimp only
    rw [hentry]
  rw [ensureDirectory, makeDirectories, hmake]
  exact if_pos h

lemma entry?_remove (h : ¬spot <+: other) : Tree.entry? (t.remove spot) other = t.entry? other := by
  cases other with
  | nil => rfl
  | cons n rest =>
    rw [entry?_of_ne_nil (cons_ne_nil n rest), entry?_of_ne_nil (cons_ne_nil n rest), remove]
    rw [Table.get?_filter fun key ↦ !spot.isPrefixOf key]
    have hkept : spot.isPrefixOf (n :: rest) = false := by
      rwa [← Bool.not_eq_true, isPrefixOf_iff_prefix]
    rw [hkept]
    rfl

end Tree
open List

variable {t : Tree} {tail : List Char} {pattern : String}

/-! ## Names that fit a pattern -/

namespace Text.Glob

variable {marks : List Bool} {cs : List Char}

lemma length_spread (seen : Bool) (marks : List Bool) :
    (spread seen marks).length = marks.length := by
  induction marks generalizing seen with
  | nil => rfl
  | cons mark marks ih => rw [spread, length_cons, ih, length_cons]

lemma length_advance (h : marks.length = cs.length + 1) (piece : Piece) :
    (advance cs marks piece).length = cs.length + 1 := by
  unfold advance
  split
  · rw [length_spread, h]
  · rw [length_cons, length_zipWith, h]
    omega

lemma length_foldl_advance (h : marks.length = cs.length + 1) (pieces : List Piece) :
    (pieces.foldl (advance cs) marks).length = cs.length + 1 := by
  induction pieces generalizing marks with
  | nil => exact h
  | cons piece pieces ih => exact ih (length_advance h piece)

lemma mark_of_advance {c : Char} {i : Nat} (h : (advance cs marks (.exact c))[i]? = some true) :
    ∃ j, i = j + 1 ∧ marks[j]? = some true ∧ cs[j]? = some c := by
  cases i with
  | zero => cases h
  | succ j =>
    refine ⟨j, rfl, ?_⟩
    have hzip : (zipWith (fun mark d ↦ mark && (Piece.exact c).accepts d) marks cs)[j]? =
      some true := h
    rw [getElem?_zipWith] at hzip
    cases hmark : marks[j]? with
    | none => simp [hmark] at hzip
    | some mark =>
      cases hchar : cs[j]? with
      | none => simp [hmark, hchar] at hzip
      | some d =>
        simp only [hmark, hchar, Piece.accepts, Option.some.injEq, Bool.and_eq_true,
          decide_eq_true_eq] at hzip
        rw [hzip.1, hzip.2]
        exact ⟨rfl, rfl⟩

/-- Where single characters have led to a mark, they stand right before it. -/
lemma suffix_of_mark {i : Nat}
    (h : ((tail.map Piece.exact).foldl (advance cs) marks)[i]? = some true) :
    tail <:+ cs.take i := by
  induction tail using reverseRecOn generalizing i with
  | nil => exact nil_suffix
  | append_singleton tail c ih =>
    rw [map_append, foldl_append] at h
    obtain ⟨j, rfl, hmark, hchar⟩ := mark_of_advance h
    rw [take_add_one, hchar, Option.toList_some]
    exact (suffix_append_inj_of_length_eq rfl).2 ⟨ih hmark, rfl⟩

lemma suffix_of_matchesName {name : String} (hpattern : pieces pattern = .run :: tail.map .exact)
    (h : matchesName pattern name = true) : tail <:+ name.toList := by
  rw [matchesName, fits, hpattern, foldl_cons] at h
  have hstart : (true :: name.toList.map fun _ ↦ false).length = name.toList.length + 1 := by simp
  have hlength := length_foldl_advance (length_advance hstart .run) (tail.map .exact)
  rw [getLastD_eq_getLast?, getLast?_eq_getElem?, hlength, Nat.add_sub_cancel] at h
  have hmark : tail <:+ name.toList.take name.toList.length := by
    apply suffix_of_mark
    rwa [Option.getD_eq_iff, or_iff_left (by simp)] at h
  rwa [take_length] at hmark

end Text.Glob

/-! ## Places below a directory -/

namespace Tree

/-- The places below a place, named from there. -/
def spotsBelow (t : Tree) (spot : List String) : List (List String) :=
  (t.entries.filter fun e ↦ spot.isPrefixOf e.1 && spot.length < e.1.length).map fun e ↦
    e.1.drop spot.length

lemma mem_spotsBelow {spot rest : List String} :
    rest ∈ t.spotsBelow spot ↔ rest ≠ [] ∧ spot ++ rest ∈ t.entries.keys := by
  simp only [spotsBelow, mem_map, mem_filter, Bool.and_eq_true, isPrefixOf_iff_prefix,
    decide_eq_true_eq]
  constructor
  · rintro ⟨e, ⟨he, ⟨tail, htail⟩, hlength⟩, rfl⟩
    rw [← htail] at hlength ⊢
    rw [drop_left]
    constructor
    · rintro rfl
      simp at hlength
    · exact htail ▸ mem_map_of_mem he
  · rintro ⟨hne, hmem⟩
    obtain ⟨e, he, hkey⟩ := mem_map.1 hmem
    refine ⟨e, ⟨he, ⟨rest, hkey.symm⟩, ?_⟩, ?_⟩
    · rw [hkey, length_append]
      have := length_pos_of_ne_nil hne
      omega
    · rw [hkey, drop_left]

lemma nodup_spotsBelow (h : t.entries.keys.Nodup) (spot : List String) :
    (t.spotsBelow spot).Nodup := by
  have hkeys : ((t.entries.filter fun e ↦ spot.isPrefixOf e.1 && spot.length < e.1.length).map
      Prod.fst).Nodup := h.sublist (filter_sublist.map _)
  have hspots : t.spotsBelow spot = ((t.entries.filter fun e ↦
      spot.isPrefixOf e.1 && spot.length < e.1.length).map Prod.fst).map (drop spot.length) := by
    rw [map_map]
    rfl
  rw [hspots]
  refine List.Nodup.map_on ?_ hkeys
  have hfrom {key : List String} (hkey : key ∈ (t.entries.filter fun e ↦
      spot.isPrefixOf e.1 && spot.length < e.1.length).map Prod.fst) :
      spot ++ key.drop spot.length = key := by
    obtain ⟨e, he, rfl⟩ := mem_map.1 hkey
    rw [mem_filter, Bool.and_eq_true, isPrefixOf_iff_prefix] at he
    exact prefix_iff_eq_append.1 he.2.1
  intro key hkey key' hkey' heq
  rw [← hfrom hkey, ← hfrom hkey', heq]

lemma below_eq {p : Path} (hp : p.IsPlace) (h : t.isDirectory p = true) :
    t.below p = (t.spotsBelow p.parts).map fun rest ↦ ⟨p.root, p.parts ++ rest⟩ := by
  obtain ⟨spot, hlocate, hentry⟩ := locate_of_isDirectory h
  have hspot : spot = p.parts := (locate_eq hlocate).trans hp.collapse
  subst hspot
  rw [below, hlocate]
  dsimp only
  rw [hentry, spotsBelow, map_map]
  rfl

end Tree

namespace Build

open CodeAtlas.Command

variable {rest patterns : List String} {e : Exclusions} {root : Path}

/-! ## What is excluded -/

namespace Exclusions

/-- Whether a name on the way to a file rules it out. -/
def bars (e : Exclusions) (name : String) : Bool := e.directories.any (·.same (.str name))

/-- Whether an excluded name stands on the way to a path, or is its last. -/
def excludes (e : Exclusions) (p : Path) : Bool := (p.root :: p.parts).any e.bars

/-- The patterns for names of files are texts. -/
def HasPatterns (e : Exclusions) (patterns : List String) : Prop :=
  e.patterns = .arr (patterns.map Json.str)

lemma fitsAny_texts (name : String) (patterns : List String) :
    fitsAny name (patterns.map Json.str) = .ok (patterns.any (Text.Glob.matchesName · name)) := by
  induction patterns with
  | nil => rfl
  | cons p rest ih =>
    rw [map_cons, fitsAny, any_cons]
    cases hfits : Text.Glob.matchesName p name with
    | true => simp [fits, hfits, bind, Except.bind, pure, Except.pure]
    | false => simp [fits, hfits, bind, Except.bind, ih]

lemma admits_eq (h : e.HasPatterns patterns) (p : Path) :
    e.admits p = .ok (!e.excludes p && !patterns.any (Text.Glob.matchesName · p.name)) := by
  rw [admits]
  split
  next hbarred =>
    have hexcluded : e.excludes p = true := hbarred
    rw [hexcluded]
    rfl
  next hbarred =>
    have hexcluded : e.excludes p = false := by rwa [← Bool.not_eq_true]
    have helements : e.patterns.elements = .ok (patterns.map Json.str) := by
      rw [h]
      rfl
    rw [helements, hexcluded]
    simp only [bind, Except.bind, fitsAny_texts]
    rfl

/-- Whether a file is scanned by the names that lead to it from a directory. -/
def keeps (e : Exclusions) (patterns : List String) (pattern : String) (rest : List String) :
    Bool :=
  Text.Glob.matchesName pattern (rest.getLastD "") && !rest.any e.bars &&
    !patterns.any (Text.Glob.matchesName · (rest.getLastD ""))

end Exclusions

/-! ## Scanning a directory -/

/-- The order in which a scan lists what it finds. -/
def spotLe (a b : List String) : Bool := !decide (b < a)

/-- What a scan of a directory finds, named from there. -/
def scanned (e : Exclusions) (patterns : List String) (pattern : String) (t : Tree) (root : Path) :
    List (List String) :=
  if e.excludes root then []
  else ((t.spotsBelow root.parts).filter (e.keeps patterns pattern)).mergeSort spotLe

lemma filterM_of_ok {α : Type} {f : α → Except Fault Bool} {g : α → Bool} (h : ∀ a, f a = .ok (g a))
    (xs : List α) (s : Session) :
    xs.filterM (fun a ↦ (liftM (f a) : Command Bool)) s = .ok (xs.filter g) s := by
  have haux : ∀ kept, xs.filterAuxM (fun a ↦ (liftM (f a) : Command Bool)) kept s =
      .ok ((xs.filter g).reverse ++ kept) s := by
    induction xs with
    | nil => exact fun _ ↦ rfl
    | cons x xs ih =>
      intro kept
      have hx : (liftM (f x) : Command Bool) s = .ok (g x) s := by
        rw [h]
        rfl
      rw [filterAuxM, bind_of_ok hx, ih]
      cases hg : g x <;> simp [hg]
  rw [filterM, bind_of_ok (haux [])]
  simp [pure, EStateM.pure]

lemma onlyTells_loadExclusions (rules : Path) : OnlyTells (loadExclusions rules) := by
  refine .bind (.isPresent rules) fun present ↦ ?_
  split
  · refine .bind (.attempt (.readJson rules)) fun document ↦ ?_
    split <;> exact .pure _
  · exact .pure _

lemma not_lt_append_iff {front a b : List String} : ¬front ++ b < front ++ a ↔ ¬b < a := by
  refine not_congr ⟨fun h ↦ ?_, append_left_lt⟩
  induction front with
  | nil => exact h
  | cons n front ih =>
    rw [cons_append, cons_append, cons_lt_cons_iff] at h
    rcases h with h | h
    · exact absurd h (lt_irrefl n)
    · exact ih h.2

lemma sort_below (root : Path) (spots : List (List String)) :
    Path.sort (spots.map fun rest ↦ ⟨root.root, root.parts ++ rest⟩) =
      (spots.mergeSort spotLe).map fun rest ↦ ⟨root.root, root.parts ++ rest⟩ := by
  rw [Path.sort, map_mergeSort]
  intro a _ b _
  rw [spotLe, Path.le, Bool.eq_iff_iff, Bool.not_eq_true', Bool.not_eq_true',
    decide_eq_false_iff_not, decide_eq_false_iff_not, not_lt_append_iff]

lemma name_below (root : Path) (h : rest ≠ []) :
    (⟨root.root, root.parts ++ rest⟩ : Path).name = rest.getLastD "" := by
  rw [Path.name, getLastD_eq_getLast?, getLastD_eq_getLast?, getLast?_append_of_ne_nil _ h]

/-- The files that a scan keeps are those that the names below the directory decide, or none. -/
lemma filter_admitted (pattern : String) (hroot : root.IsPlace)
    (hdirectory : t.isDirectory root = true) :
    Path.sort (((t.below root).filter fun p ↦ Text.Glob.matchesName pattern p.name).filter fun p ↦
        !e.excludes p && !patterns.any (Text.Glob.matchesName · p.name)) =
      (scanned e patterns pattern t root).map fun rest ↦ ⟨root.root, root.parts ++ rest⟩ := by
  have hexcludes (rest : List String) :
      e.excludes ⟨root.root, root.parts ++ rest⟩ = (e.excludes root || rest.any e.bars) := by
    rw [Exclusions.excludes, Exclusions.excludes, any_cons, any_cons, any_append, Bool.or_assoc]
  rw [Tree.below_eq hroot hdirectory, filter_map, filter_map, filter_filter, sort_below]
  congr 1
  rw [scanned]
  split
  next hbarred =>
    rw [filter_eq_nil_iff.2, mergeSort_nil]
    simp [hexcludes, hbarred]
  next hbarred =>
    congr 1
    apply filter_congr
    intro rest hrest
    have hname := name_below root (Tree.mem_spotsBelow.1 hrest).1
    simp only [Function.comp_apply, hexcludes, hname, Exclusions.keeps,
      Bool.eq_false_of_not_eq_true hbarred, Bool.false_or]
    rw [Bool.and_comm, Bool.and_assoc]

lemma scan_eq {s : Session} {rules : Path} (hpatterns : e.HasPatterns patterns)
    (hrules : Gives (loadExclusions rules) s e) (hroot : root.IsPlace)
    (hdirectory : s.tree.isDirectory root = true) (pattern : String) :
    ∃ t, scan rules root pattern s = .ok ((scanned e patterns pattern s.tree root).map fun rest ↦
      ⟨root.root, root.parts ++ rest⟩) t ∧ Printed s t := by
  obtain ⟨t, hload, hprinted⟩ := (onlyTells_loadExclusions rules).printed_of_gives hrules
  refine ⟨t, ?_, hprinted⟩
  rw [scan, bind_of_ok hload, bind_of_ok (run_get t),
    bind_of_ok (filterM_of_ok (Exclusions.admits_eq hpatterns) _ t)]
  rw [hprinted.sameFiles.tree, filter_admitted pattern hroot hdirectory]
  rfl

/-! ## Sources -/

/-- What a scan of a directory finds, as sources. -/
def sourcesIn (e : Exclusions) (patterns : List String) (pattern : String) (t : Tree)
    (root : Path) : List Source :=
  (scanned e patterns pattern t root).map fun rest ↦ sourceAt t root ⟨root.root, root.parts ++ rest⟩

lemma name_sourceAt (t : Tree) (root : Path) (h : rest ≠ []) :
    (sourceAt t root ⟨root.root, root.parts ++ rest⟩).name = String.intercalate "/" rest := by
  have hrelative : (⟨root.root, root.parts ++ rest⟩ : Path).relativeTo? root = some ⟨"", rest⟩ := by
    rw [Path.relativeTo?, if_pos ⟨rfl, isPrefixOf_iff_prefix.2 (prefix_append _ _)⟩, drop_left]
  rw [sourceAt, hrelative, Option.getD_some, Path.text, if_neg (by rwa [List.isEmpty_iff]),
    String.empty_append]

lemma mem_scanned : rest ∈ scanned e patterns pattern t root ↔
      e.excludes root = false ∧ rest ∈ t.spotsBelow root.parts ∧
      e.keeps patterns pattern rest = true := by
  rw [scanned]
  split
  next h => simp [h]
  next h => simp [mem_mergeSort, h]

lemma suffix_intercalate (h : rest ≠ []) (hlast : tail <:+ (rest.getLastD "").toList) :
    tail <:+ (String.intercalate "/" rest).toList := by
  induction rest with
  | nil => exact absurd rfl h
  | cons n rest ih =>
    cases rest with
    | nil => rwa [String.intercalate_singleton]
    | cons m rest =>
      rw [String.intercalate_cons_cons, String.toList_append]
      exact (ih (cons_ne_nil m rest) hlast).trans (suffix_append _ _)

lemma suffix_name_of_mem (hpattern : Text.Glob.pieces pattern = .run :: tail.map .exact)
    {source : Source} (h : source ∈ sourcesIn e patterns pattern t root) :
    tail <:+ source.name.toList := by
  obtain ⟨rest, hrest, rfl⟩ := mem_map.1 h
  obtain ⟨-, hbelow, hkeeps⟩ := mem_scanned.1 hrest
  have hne := (Tree.mem_spotsBelow.1 hbelow).1
  rw [Exclusions.keeps, Bool.and_eq_true, Bool.and_eq_true] at hkeeps
  rw [name_sourceAt t root hne]
  exact suffix_intercalate hne (Text.Glob.suffix_of_matchesName hpattern hkeeps.1.1)

end Build

end CodeAtlas
