import CodeAtlas.Proofs.SketchedGraph
import CodeAtlas.Proofs.StructureGuard

/-!
# Edges under one name

The guard of structure compares edges by one text that is put together from their ends and their
type. Two edges may share that text: an arrow inside a source, or a bar inside a type, can be read
in two ways. Here is which edges share a text, and so for which graphs the guard rules rewiring out.
-/

namespace CodeAtlas.Graph.Equivalence

open Fallible List

/-- No end of a text is a start of it, but for the whole and the empty one. -/
def Unbordered (separator : List Char) : Prop :=
  ∀ before overlap after, separator = before ++ overlap → separator = overlap ++ after →
    overlap = [] ∨ overlap = separator

lemma unbordered_singleton (c : Char) : Unbordered [c] := by
  intro before overlap after hend _
  cases overlap with
  | nil => exact .inl rfl
  | cons d overlap =>
    have hlength := congrArg List.length hend
    simp only [length_append, length_cons, length_nil] at hlength
    obtain rfl : before = [] := eq_nil_of_length_eq_zero (by omega)
    exact .inr hend.symm

lemma unbordered_pair {c d : Char} (h : c ≠ d) : Unbordered [c, d] := by
  intro before overlap after hend hstart
  match before, overlap with
  | [], overlap => exact .inr hend.symm
  | _ :: _, [] => exact .inl rfl
  | b :: before, o :: overlap =>
    have hlength := congrArg List.length hend
    simp only [length_append, length_cons, length_nil] at hlength
    obtain rfl : before = [] := eq_nil_of_length_eq_zero (by omega)
    obtain rfl : overlap = [] := eq_nil_of_length_eq_zero (by omega)
    simp only [cons_append, nil_append, List.cons.injEq, and_true] at hend hstart
    exact absurd (hstart.1.trans hend.2.symm) h

lemma unbordered_arrow : Unbordered "->".toList :=
  unbordered_pair (show '-' ≠ '>' by decide)

lemma unbordered_bar : Unbordered "|".toList := unbordered_singleton '|'

/-- Where the start of one text is a part of the start of the other, the separator is met twice. -/
lemma eq_or_twice_of_append {separator w x y : List Char} (h : Unbordered separator)
    (heq : separator ++ x = w ++ (separator ++ y)) :
    w = [] ∧ x = y ∨ ∃ m, w = separator ++ m ∧ x = m ++ (separator ++ y) := by
  rcases append_eq_append_iff.1 heq with ⟨m, hw, hx⟩ | ⟨overlap, hseparator, hy⟩
  · exact .inr ⟨m, hw, hx⟩
  · have hstart : ∃ after, separator = overlap ++ after := by
      rcases append_eq_append_iff.1 hy with ⟨after, hoverlap, -⟩ | ⟨after, hoverlap, -⟩
      · have hlength := congrArg List.length hseparator
        have hlength' := congrArg List.length hoverlap
        simp only [length_append] at hlength hlength'
        obtain rfl : after = [] := eq_nil_of_length_eq_zero (by omega)
        exact ⟨[], by simpa using hoverlap.symm⟩
      · exact ⟨after, hoverlap⟩
    obtain ⟨after, hstart⟩ := hstart
    rcases h w overlap after hseparator hstart with rfl | rfl
    · exact .inr ⟨[], by simp [hseparator], by simpa using hy.symm⟩
    · have hw : w = [] := by simpa using hseparator
      subst hw
      exact .inl ⟨rfl, append_cancel_left heq⟩

/-- Two texts with a separator in them are the same just if they have the same parts, or if one of
them has the separator once more in its first part. -/
lemma append_separator_eq_iff {separator : String} (h : Unbordered separator.toList)
    {s s' x x' : String} : s ++ separator ++ x = s' ++ separator ++ x' ↔ s = s' ∧ x = x' ∨
      (∃ m, s' = s ++ separator ++ m ∧ x = m ++ separator ++ x') ∨
      ∃ m, s = s' ++ separator ++ m ∧ x' = m ++ separator ++ x := by
  constructor
  · have hone {s s' x x' : String} {w : List Char} (hs : s'.toList = s.toList ++ w)
        (hrest : separator.toList ++ x.toList = w ++ (separator.toList ++ x'.toList)) :
        s = s' ∧ x = x' ∨ ∃ m, s' = s ++ separator ++ m ∧ x = m ++ separator ++ x' := by
      rcases eq_or_twice_of_append h hrest with ⟨rfl, hx⟩ | ⟨m, rfl, hx⟩
      · rw [append_nil] at hs
        exact .inl ⟨(String.toList_inj.1 hs).symm, String.toList_inj.1 hx⟩
      · refine .inr ⟨String.ofList m, String.toList_inj.1 ?_, String.toList_inj.1 ?_⟩
        · simp [String.toList_append, hs]
        · simp [String.toList_append, hx]
    intro heq
    have hlist := congrArg String.toList heq
    simp only [String.toList_append, append_assoc] at hlist
    rcases append_eq_append_iff.1 hlist with ⟨w, hs, hrest⟩ | ⟨w, hs, hrest⟩
    · rcases hone hs hrest with hsame | hlater
      · exact .inl hsame
      · exact .inr (.inl hlater)
    · rcases hone hs hrest with ⟨hs, hx⟩ | hlater
      · exact .inl ⟨hs.symm, hx.symm⟩
      · exact .inr (.inr hlater)
  · rintro (⟨rfl, rfl⟩ | ⟨m, rfl, rfl⟩ | ⟨m, rfl, rfl⟩)
    · rfl
    · simp only [String.append_assoc]
    · simp only [String.append_assoc]

/-- An edge by its ends and its type. -/
structure Link where
  source : String
  target : String
  type : String
deriving DecidableEq, Repr

namespace Link

/-- The text by which the guard knows an edge. -/
def name (a : Link) : String := a.source ++ "->" ++ a.target ++ "|" ++ a.type

/-- An arrow in the source of the second edge, or a bar in the type of the first, lets both have the
same text. -/
inductive Confused (a b : Link) : Prop
  | arrow (middle : String) (hsource : b.source = a.source ++ "->" ++ middle)
      (hrest : a.target ++ "|" ++ a.type = middle ++ "->" ++ (b.target ++ "|" ++ b.type))
  | bar (middle : String) (hsource : b.source = a.source)
      (htarget : b.target = a.target ++ "|" ++ middle) (htype : a.type = middle ++ "|" ++ b.type)

lemma name_eq (a : Link) : a.name = a.source ++ "->" ++ (a.target ++ "|" ++ a.type) := by
  simp only [name, String.append_assoc]

lemma Confused.name_eq_name {a b : Link} (h : Confused a b) : a.name = b.name := by
  rw [name_eq, name_eq]
  cases h with
  | arrow middle hsource hrest => rw [hsource, hrest]; simp only [String.append_assoc]
  | bar middle hsource htarget htype =>
    rw [hsource, htarget, htype]
    simp only [String.append_assoc]

lemma append_separator_ne {separator : String} (h : separator ≠ "") (s m : String) :
    s ≠ s ++ separator ++ m := by
  intro heq
  have hlength := congrArg String.length heq
  simp only [String.length_append] at hlength
  exact h (String.length_eq_zero_iff.1 (by omega))

lemma Confused.ne {a b : Link} (h : Confused a b) : a ≠ b := by
  rintro rfl
  cases h with
  | arrow middle hsource _ => exact append_separator_ne (by decide) _ _ hsource
  | bar middle _ htarget _ => exact append_separator_ne (by decide) _ _ htarget

/-- Two edges have the same text just if they are the same or one is confused with the other. -/
lemma name_eq_name_iff {a b : Link} : a.name = b.name ↔ a = b ∨ Confused a b ∨ Confused b a := by
  constructor
  · intro h
    rw [name_eq, name_eq, append_separator_eq_iff unbordered_arrow] at h
    rcases h with ⟨hsource, hrest⟩ | ⟨m, hsource, hrest⟩ | ⟨m, hsource, hrest⟩
    · rw [append_separator_eq_iff unbordered_bar] at hrest
      rcases hrest with ⟨htarget, htype⟩ | ⟨m, htarget, htype⟩ | ⟨m, htarget, htype⟩
      · cases a
        simp_all
      · exact .inr (.inl (.bar m hsource.symm htarget htype))
      · exact .inr (.inr (.bar m hsource htarget htype))
    · exact .inr (.inl (.arrow m hsource hrest))
    · exact .inr (.inr (.arrow m hsource hrest))
  · rintro (rfl | h | h)
    · rfl
    · exact h.name_eq_name
    · exact h.name_eq_name.symm

/-- An edge whose source has no arrow in it and whose type has no bar. -/
def Plain (a : Link) : Prop :=
  Text.occursIn "->" a.source = false ∧ Text.occursIn "|" a.type = false

lemma Plain.not_confused {a b : Link} (ha : a.Plain) (hb : b.Plain) : ¬Confused a b := by
  rintro (⟨middle, hsource, -⟩ | ⟨middle, -, -, htype⟩)
  · have harrow := hb.1
    rw [hsource, Build.occursIn_append] at harrow
    cases harrow
  · have hbar := ha.2
    rw [htype, Build.occursIn_append] at hbar
    cases hbar

end Link

/-- An edge of a graph has these ends and this type. -/
structure Carries (e : Json) (a : Link) : Prop where
  source : e.member? "source" = some (.str a.source)
  target : e.member? "target" = some (.str a.target)
  type : e.member? "type" = some (.str a.type)

/-- The edges of a graph, in their order. -/
def Linked (g : Json) (links : List Link) : Prop :=
  ∃ items, edgesOf g = .ok items ∧ List.Forall₂ Carries items links

lemma Carries.edgeText {e : Json} {a : Link} (h : Carries e a) : edgeText e = .ok a.name := by
  simp only [Equivalence.edgeText, bind_eq_ok, Json.need_eq_ok]
  exact ⟨_, h.source, _, h.target, _, h.type, rfl⟩

lemma Linked.edgeTexts {g : Json} {links : List Link} (h : Linked g links) :
    edgeTexts g = .ok (links.map Link.name) := by
  obtain ⟨items, hitems, hlinks⟩ := h
  obtain ⟨edges, hedges, helements⟩ := bind_eq_ok.1 hitems
  simp only [Equivalence.edgeTexts, bind_eq_ok, mapM_eq_ok, forall₂_map_right_iff]
  exact ⟨edges, hedges, items, helements, hlinks.imp fun e a he ↦ he.edgeText⟩

lemma edgeTexts_of_accepted {raw g : Json} {texts texts' : List String}
    (hraw : edgeTexts raw = .ok texts) (hg : edgeTexts g = .ok texts')
    (h : violations raw g = .ok []) : texts ⊆ texts' ∧ texts' ⊆ texts := by
  simp only [violations, bind_eq_ok, pure_eq_ok, append_eq_nil_iff, inOrder_map_eq_nil] at h
  obtain ⟨-, -, -, -, -, -, -, -, -, -, -, -, -, -, -, -, -, -, rawEdges, hrawEdges, newEdges,
    hnewEdges, -, -, -, -, rawItems, hrawItems, rawTexts, hrawTexts, newItems, hnewItems, newTexts,
    hnewTexts, -, -, -, -, -, -, -, -, ⟨⟨-, hlost⟩, hgained⟩, -⟩ := h
  have htexts : edgeTexts raw = .ok rawTexts := by
    simp only [edgeTexts, bind_eq_ok]
    exact ⟨rawEdges, hrawEdges, rawItems, hrawItems, hrawTexts⟩
  have htexts' : edgeTexts g = .ok newTexts := by
    simp only [edgeTexts, bind_eq_ok]
    exact ⟨newEdges, hnewEdges, newItems, hnewItems, hnewTexts⟩
  cases hraw.symm.trans htexts
  cases hg.symm.trans htexts'
  exact ⟨hlost, hgained⟩

def singleEdge (a : Link) : Json :=
  Enrichment.graphOf [] [Enrichment.edgeOf a.type a.source a.target]

lemma linked_singleEdge (a : Link) : Linked (singleEdge a) [a] :=
  ⟨_, rfl, .cons ⟨rfl, rfl, rfl⟩ .nil⟩

lemma violations_singleEdge {a b : Link} (h : a.name = b.name) :
    violations (singleEdge a) (singleEdge b) = .ok [] := by
  have htabled (a : Link) : Tabled (singleEdge a) [] := Listed.tabled ⟨rfl, by decide, by decide⟩
  rw [violations_eq_nil_iff_of_tabled (htabled a) (htabled b)]
  refine ⟨rfl, fun _ ↦ .none, ?_, 0, rfl, rfl⟩
  refine ⟨_, _, (linked_singleEdge a).edgeTexts, (linked_singleEdge b).edgeTexts, ?_⟩
  simp [h]

/-- The guard accepts no rewiring of graphs whose edges are all of some sort: what it accepts has
the edges of the raw graph. -/
def RulesOutRewiring (allowed : Link → Prop) : Prop :=
  ∀ raw g links links', Linked raw links → Linked g links' → (∀ a ∈ links, allowed a) →
    (∀ a ∈ links', allowed a) → violations raw g = .ok [] → ∀ a, a ∈ links ↔ a ∈ links'

lemma mem_of_names_subset {allowed : Link → Prop} {links links' : List Link}
    (h : ∀ a b, allowed a → allowed b → ¬Link.Confused a b) (hlinks : ∀ a ∈ links, allowed a)
    (hlinks' : ∀ a ∈ links', allowed a) (hnames : links.map Link.name ⊆ links'.map Link.name)
    {a : Link} (ha : a ∈ links) : a ∈ links' := by
  obtain ⟨b, hb, hname⟩ := mem_map.1 (hnames (mem_map_of_mem ha))
  rcases Link.name_eq_name_iff.1 hname with rfl | hconfused | hconfused
  · exact hb
  · exact absurd hconfused (h b a (hlinks' b hb) (hlinks a ha))
  · exact absurd hconfused (h a b (hlinks a ha) (hlinks' b hb))

/-- The guard rules rewiring out for edges of some sort just if no two of them are confused with
each other. So it does for edges whose sources have no arrow and whose types have no bar. -/
theorem rulesOutRewiring_iff (allowed : Link → Prop) :
    (RulesOutRewiring allowed ↔ ∀ a b, allowed a → allowed b → ¬Link.Confused a b) ∧
      ((∀ a, allowed a → a.Plain) → RulesOutRewiring allowed) := by
  have hiff : RulesOutRewiring allowed ↔ ∀ a b, allowed a → allowed b → ¬Link.Confused a b := by
    constructor
    · intro h a b ha hb hconfused
      have haccepted := violations_singleEdge hconfused.name_eq_name
      have hmem := h _ _ _ _ (linked_singleEdge a) (linked_singleEdge b) (by simpa) (by simpa)
        haccepted a
      obtain rfl : a = b := by simpa using hmem
      exact hconfused.ne rfl
    · intro h raw g links links' hraw hg hlinks hlinks' haccepted a
      obtain ⟨hlost, hgained⟩ := edgeTexts_of_accepted hraw.edgeTexts hg.edgeTexts haccepted
      exact ⟨mem_of_names_subset h hlinks hlinks' hlost,
        mem_of_names_subset h hlinks' hlinks hgained⟩
  exact ⟨hiff, fun hplain ↦ hiff.2 fun a b ha hb ↦ (hplain a ha).not_confused (hplain b hb)⟩

/-- Functions whose names have arrows in them. -/
def arrowNodes : Table Key Json :=
  ["a", "a->b", "c", "b->c"].map fun id ↦
    (.str id, .obj [("id", .str id), ("type", .str "Function")])

/-- These functions, and a call from one of them to another. -/
def arrowGraph (source target : String) : Json :=
  Enrichment.graphOf arrowNodes [Enrichment.edgeOf "calls" source target]

lemma linked_arrowGraph (source target : String) :
    Linked (arrowGraph source target) [⟨source, target, "calls"⟩] :=
  ⟨_, rfl, .cons ⟨rfl, rfl, rfl⟩ .nil⟩

/-- A call is moved to two other functions, and the guard accepts it. -/
theorem accepts_rewired_call :
    Listed (arrowGraph "a->b" "c") arrowNodes ∧ Listed (arrowGraph "a" "b->c") arrowNodes ∧
      violations (arrowGraph "a->b" "c") (arrowGraph "a" "b->c") = .ok [] ∧
      ∃ links links', Linked (arrowGraph "a->b" "c") links ∧ Linked (arrowGraph "a" "b->c") links' ∧
        ¬∀ a, a ∈ links ↔ a ∈ links' := by
  refine ⟨⟨rfl, by decide, by decide⟩, ⟨rfl, by decide, by decide⟩, by decide +kernel, _, _,
    linked_arrowGraph _ _, linked_arrowGraph _ _, fun h ↦ ?_⟩
  exact absurd ((h ⟨"a->b", "c", "calls"⟩).1 List.mem_cons_self) (by decide)

end CodeAtlas.Graph.Equivalence
