import CodeAtlas.Graph.Demonstration
import CodeAtlas.Graph.Notes
import CodeAtlas.Proofs.IncrementalRoles

/-!
# Files that have been noted

A note carries the hash that its file had when the note was written. The list of files that wait
reads that hash from the noted graph and compares it with the hash that the file has now. Both go by
the id of the file, so a file is skipped just if it got a note and has the same hash still, in
whatever way the graph has changed otherwise.
-/

namespace CodeAtlas.Graph.Notes

open Fallible List Json CodeAtlas.Graph.Demonstration Table

variable {g n : Json} {k : Key} {t' : Table Key Json}

/-! ## Who gets a note -/

def textId (n : Json) : String := ((n.member? "id").bind Json.asStr?).getD ""

def nameOf (n : Json) : Json := (n.member? "name").getD .null

/-- A prepared note fits a node by the whole id, or by its last part, which occurs in the id and is
the name. -/
def fits (note : String) (n : Json) : Bool :=
  textId n == note || Text.occursIn (Demonstration.lastPart note) (textId n) &&
    (nameOf n).same (.str (Demonstration.lastPart note))

/-- A node belongs to the demonstration if its path says so. -/
def isDemonstrated (n : Json) : Bool :=
  match n.member? "file_path" with
  | some (.str path) => Text.occursIn "_demo" path
  | _ => false

/-- The note that a node gets: the first prepared one that fits, or a general one. -/
def noteFor? (n : Json) : Option (List (String × Json)) :=
  ((Catalog.applicationNotes.find? fun e ↦ fits e.1 n).map Prod.snd).or
    (if isDemonstrated n then some (Demonstration.generalNote (nameOf n)) else none)

def notedHash (n : Json) : Json := ((n.member? "hash").getD .null).orElse (.str "unknown")

def described (now : String) (n : Json) : Json :=
  match noteFor? n with
  | some note => n.setMember "llm_enrichment"
      (.obj (note ++ [("enriched_at", .str now), ("enriched_at_hash", notedHash n)]))
  | none => n

section

variable {id : String} (hid : n.member? "id" = some (.str id))
include hid

lemma textId_eq : textId n = id := by
  rw [textId, hid]
  rfl

lemma isMeantFor_eq (note : String) : isMeantFor note n id = .ok (fits note n) := by
  have hname : n.get "name" = .ok (nameOf n) :=
    get_eq_ok.2 ⟨isObject_of_member? hid, rfl⟩
  rw [isMeantFor, fits, textId_eq hid, holds, hname]
  by_cases hsame : id = note
  · simp [same, hsame, pure, Except.pure]
  · by_cases hpart : Text.occursIn (Demonstration.lastPart note) id = true
    all_goals simp [same, hsame, hpart, bind, Except.bind, pure, Except.pure]

lemma noteFor_eq (notes : List (String × List (String × Json))) : noteFor n id notes =
      .ok ((notes.find? fun e ↦ fits e.1 n).map Prod.snd) := by
  induction notes with
  | nil => rfl
  | cons e rest ih =>
    rw [noteFor, isMeantFor_eq hid, find?_cons]
    cases fits e.1 n with
    | true => rfl
    | false => exact ih

lemma describeNode_eq (hpath : ∀ v, n.member? "file_path" = some v → ∃ path, v = .str path)
    (now : String) : describeNode now n = .ok (described now n) := by
  have hobject := isObject_of_member? hid
  have hstamp : stamp now n = .ok [("enriched_at", .str now), ("enriched_at_hash", notedHash n)] :=
    bind_eq_ok.2 ⟨_, get_eq_ok.2 ⟨hobject, rfl⟩, rfl⟩
  have hname : n.get "name" = .ok (nameOf n) := get_eq_ok.2 ⟨hobject, rfl⟩
  have hdemonstrated : ∃ path, n.getD "file_path" "" = .ok path ∧
      path.holds "_demo" = .ok (isDemonstrated n) := by
    refine ⟨_, getD_eq_ok.2 ⟨hobject, rfl⟩, ?_⟩
    rw [isDemonstrated]
    cases hmember : n.member? "file_path" with
    | none => rfl
    | some v =>
      obtain ⟨path, rfl⟩ := hpath v hmember
      rfl
  obtain ⟨path, hgot, hholds⟩ := hdemonstrated
  simp only [describeNode, get_of_member? hid, noteFor_eq hid, described, noteFor?,
    bind, Except.bind]
  cases (Catalog.applicationNotes.find? fun e ↦ fits e.1 n).map Prod.snd with
  | some note => simp [hstamp, pure, Except.pure]
  | none =>
    cases hdemo : isDemonstrated n with
    | true => simp [hgot, hholds, hdemo, hname, hstamp, pure, Except.pure]
    | false => simp [hgot, hholds, hdemo, pure, Except.pure]

lemma member?_described (now : String) {name : String} (hname : name ≠ "llm_enrichment") :
    (described now n).member? name = n.member? name := by
  rw [described]
  split
  · rw [member?_setMember (isObject_of_member? hid), if_neg hname]
  · rfl

end

lemma get?_hash_of_noteFor? {note : List (String × Json)} (h : noteFor? n = some note) :
    get? note "enriched_at_hash" = none := by
  have hprepared : ∀ e ∈ Catalog.applicationNotes, get? e.2 "enriched_at_hash" = none := by
    decide +kernel
  rw [noteFor?, Option.or_eq_some_iff] at h
  rcases h with h | ⟨-, h⟩
  · obtain ⟨e, he, rfl⟩ := Option.map_eq_some_iff.1 h
    exact hprepared e (mem_of_find?_eq_some he)
  · split at h
    · cases h
      rfl
    · cases h

/-! ## The noted graph -/

/-- A graph without notes, under ids that are distinct texts: paths are texts, and files have
hashes. -/
structure Unnoted (g : Json) (t : Table Key Json) : Prop where
  nodes : nodesOf g = .ok t.values
  distinct : t.keys.Nodup
  labelled : Labelled t
  paths : ∀ k n, (k, n) ∈ t → ∀ v, n.member? "file_path" = some v → ∃ path, v = .str path
  hashes : ∀ k n, (k, n) ∈ t → Diff.isFile n = true →
    ∃ hash, hash ≠ "" ∧ n.member? "hash" = some (.str hash)
  unnoted : ∀ k n, (k, n) ∈ t → n.member? "llm_enrichment" = none

def describedAll (now : String) (t : Table Key Json) : Table Key Json :=
  t.map (Prod.map id (described now))

lemma get?_describedAll (now : String) (t : Table Key Json) (k : Key) :
    (describedAll now t).get? k = (t.get? k).map (described now) := get?_map _ t k

lemma keys_describedAll (now : String) (t : Table Key Json) :
    (describedAll now t).keys = t.keys := by
  simp [describedAll, Table.keys]

lemma notedNodes_of_identified {noted : Json} {t : Table Key Json}
    (hnodes : nodesOf noted = .ok t.values) (hdistinct : t.keys.Nodup) (hidentified : Identified t)
    (htruthy : noted.truthy = true) : notedNodes noted = .ok t := by
  have hread (n : Json) (hn : n ∈ t.values) : n.get "id" = n.need "id" := by
    obtain ⟨⟨k, n⟩, hmem, rfl⟩ := mem_map.1 hn
    obtain ⟨id, hid, -⟩ := hidentified k n hmem
    rw [get_of_member? hid, need_eq_ok.2 hid]
  rw [notedNodes, if_pos htruthy, hnodes, ← nodesById_values hdistinct hidentified]
  exact foldlM_congr_of_mem fun table n hn ↦ by rw [hread n hn]

section

variable {t : Table Key Json} (hg : Unnoted g t) (now : String)
include hg

lemma labelled_describedAll : Labelled (describedAll now t) := by
  intro k m hm
  obtain ⟨⟨k, n⟩, hmem, heq⟩ := mem_map.1 hm
  cases heq
  obtain ⟨id, hk, hid⟩ := hg.labelled k n hmem
  exact ⟨id, hk, (member?_described hid now (by decide)).trans hid⟩

lemma mapM_describeNode : t.values.mapM (describeNode now) = .ok (describedAll now t).values := by
  have hnodes : ∀ n ∈ t.values, describeNode now n = .ok (described now n) := by
    intro n hn
    obtain ⟨⟨k, n⟩, hmem, rfl⟩ := mem_map.1 hn
    obtain ⟨id, -, hid⟩ := hg.labelled k n hmem
    exact describeNode_eq hid (hg.paths k n hmem) now
  rw [mapM_of_forall hnodes]
  simp [describedAll, values, Function.comp_def]

/-- Describing a graph succeeds and changes its nodes one by one, and they are found again by id. -/
lemma exists_describe : ∃ noted, describe now g = .ok noted ∧
    nodesOf noted = .ok (describedAll now t).values ∧
    notedNodes noted = .ok (describedAll now t) := by
  obtain ⟨listed, hlisted, hvalues⟩ := bind_eq_ok.1 hg.nodes
  obtain ⟨hobject, -⟩ := getD_eq_ok.1 hlisted
  have hdescribe : describe now g = .ok (if (describedAll now t).values.isEmpty then g
      else g.setMember "nodes" (.arr (describedAll now t).values)) := by
    simp only [describe, mapItems, hlisted, hvalues, mapM_describeNode hg, bind, Except.bind]
    split <;> rfl
  by_cases hempty : t = []
  · subst hempty
    refine ⟨g, hdescribe, hg.nodes, ?_⟩
    rw [notedNodes, hg.nodes]
    split <;> rfl
  · have hne : (describedAll now t).values.isEmpty = false := by
      cases t with
      | nil => exact absurd rfl hempty
      | cons e rest => rfl
    have hmember : (g.setMember "nodes" (.arr (describedAll now t).values)).member? "nodes" =
        some (.arr (describedAll now t).values) := by
      rw [member?_setMember hobject, if_pos rfl]
    have hnodes : nodesOf (g.setMember "nodes" (.arr (describedAll now t).values)) =
        .ok (describedAll now t).values := bind_eq_ok.2 ⟨_, getD_of_member? hmember _, rfl⟩
    rw [hne] at hdescribe
    refine ⟨_, hdescribe, hnodes, notedNodes_of_identified hnodes ?_ ?_ (truthy_of_member? hmember)⟩
    · rw [keys_describedAll]
      exact hg.distinct
    · exact (labelled_describedAll hg now).identified

end

/-! ## Which files wait -/

/-- Why a file with a hash waits or does not, from the nodes that the graph had when it was noted.
-/
def reasonAgainst (t : Table Key Json) (k : Key) (hash : Json) : Reason :=
  match t.get? k with
  | none => .newFile
  | some n =>
    if (noteFor? n).isNone then .notEnriched
    else if (notedHash n).same hash then .unchanged
    else .hashChanged

/-- The entry of a file. -/
def entryOf (t : Table Key Json) (e : Key × Json) : Entry where
  id := (e.2.member? "id").getD .null
  path := (e.2.member? "file_path").getD (nameOf e.2)
  hash := (e.2.member? "hash").getD .null
  reason := reasonAgainst t e.1 ((e.2.member? "hash").getD .null)

def filesIn (t : Table Key Json) : Table Key Json := t.filter fun e ↦ Diff.isFile e.2

/-- A note that has been written is found again, with the hash that was noted. -/
lemma reasonFor_described {id : String} (hid : n.member? "id" = some (.str id))
    (hunnoted : n.member? "llm_enrichment" = none) (now : String) (hash : Json) :
    reasonFor false hash (described now n) = .ok (if (noteFor? n).isNone then .notEnriched
        else if (notedHash n).same hash then .unchanged else .hashChanged) := by
  have htruthy : (described now n).truthy = true :=
    truthy_of_member? ((member?_described hid now (by decide)).trans hid)
  obtain ⟨m, hm⟩ := isObject_of_member? hid
  rw [reasonFor, htruthy]
  cases hnote : noteFor? n with
  | none =>
    have hsame : described now n = .obj m := by rw [described, hnote, hm]
    rw [hm, member?_obj] at hunnoted
    simp [hsame, holds, Table.contains, hunnoted, bind, Except.bind, pure, Except.pure]
  | some note =>
    have hmember : (described now n).member? "llm_enrichment" = some
        (.obj (note ++ [("enriched_at", .str now), ("enriched_at_hash", notedHash n)])) := by
      rw [described, hnote]
      exact (member?_setMember ⟨m, hm⟩ _ _ _).trans (if_pos rfl)
    have hholds : (described now n).holds "llm_enrichment" = .ok true := by
      obtain ⟨m', hm'⟩ := isObject_of_member? hmember
      rw [hm', member?_obj] at hmember
      rw [hm', holds, Table.contains, hmember]
      rfl
    have hstored : (obj (note ++ [("enriched_at", .str now),
        ("enriched_at_hash", notedHash n)])).get "enriched_at_hash" = .ok (notedHash n) := by
      refine get_of_member? ?_
      rw [member?_obj, get?_append, get?_hash_of_noteFor? hnote]
      rfl
    simp only [hholds, getD_of_member? hmember, hstored, bind, Except.bind]
    cases (notedHash n).same hash <;> rfl

lemma survey_eq {g' noted : Json} {t : Table Key Json} (hg : Unnoted g t) {now : String}
    (hnoted : notedNodes noted = .ok (describedAll now t)) (hnodes : nodesOf g' = .ok t'.values)
    (hidentified : Identified t') : survey false g' noted = .ok ((filesIn t').map (entryOf t)) := by
  have hfiles : t'.values.filterM isFileNode = .ok (filesIn t').values := by
    have hread : ∀ n ∈ t'.values, isFileNode n = .ok (Diff.isFile n) := by
      intro n hn
      obtain ⟨⟨k, n⟩, hmem, rfl⟩ := mem_map.1 hn
      obtain ⟨id, hid, -⟩ := hidentified k n hmem
      exact Diff.isFileNode_eq_ok (isObject_of_member? hid)
    rw [filterM_of_forall hread, filesIn, values, values, filter_map]
    rfl
  rw [survey, hnodes]
  change (t'.values.filterM isFileNode >>= _) = _
  rw [hfiles, hnoted]
  change (filesIn t').values.mapM _ = _
  rw [values, mapM_map]
  refine mapM_of_forall fun e he ↦ ?_
  obtain ⟨k, n⟩ := e
  obtain ⟨id, hid, hkey⟩ := hidentified k n (mem_of_mem_filter he)
  have hobject := isObject_of_member? hid
  have hreason : reasonFor false ((n.member? "hash").getD .null)
    (((describedAll now t).get? k).getD .null) =
        .ok (reasonAgainst t k ((n.member? "hash").getD .null)) := by
    rw [get?_describedAll, reasonAgainst]
    cases hold : t.get? k with
    | none => rfl
    | some n₀ =>
      obtain ⟨id₀, -, hid₀⟩ := hg.labelled k n₀ (mem_of_get? hold)
      exact reasonFor_described hid₀ (hg.unnoted k n₀ (mem_of_get? hold)) now _
  have hget (name : String) : n.get name = .ok ((n.member? name).getD .null) :=
    get_eq_ok.2 ⟨hobject, rfl⟩
  have hgetD (default : Json) :
    n.getD "file_path" default = .ok ((n.member? "file_path").getD default) :=
    getD_eq_ok.2 ⟨hobject, rfl⟩
  have hkey' : ((n.member? "id").getD .null).key = .ok k := by
    rw [hid]
    exact key_eq_ok.2 hkey
  simp only [Function.comp_apply, hget, hgetD, hkey', hreason, bind, Except.bind]
  rfl

/-! ## The round trip -/

lemma isSome_described {id : String} (hid : n.member? "id" = some (.str id))
    (hunnoted : n.member? "llm_enrichment" = none) (now : String) :
    ((described now n).member? "llm_enrichment").isSome = (noteFor? n).isSome := by
  rw [described]
  cases noteFor? n with
  | none => simp [hunnoted]
  | some note => simp [member?_setMember (isObject_of_member? hid)]

lemma isSome_noteFor? (n : Json) : (noteFor? n).isSome = true ↔
    (∃ e ∈ Catalog.applicationNotes, fits e.1 n = true) ∨ isDemonstrated n = true := by
  rw [noteFor?, Option.isSome_or, Bool.or_eq_true, Option.isSome_map, find?_isSome]
  cases isDemonstrated n <;> simp

/-- A file has kept what was noted of it: it was a file and has got a note, and has the same hash
still. -/
def Kept (t noted : Table Key Json) (k : Key) (n : Json) : Prop :=
  ∃ before m, t.get? k = some before ∧ Diff.isFile before = true ∧ noted.get? k = some m ∧
    (m.member? "llm_enrichment").isSome = true ∧ n.member? "hash" = before.member? "hash"

lemma reasonAgainst_eq_unchanged_iff {t : Table Key Json} (hg : Unnoted g t) (now : String)
    (hfile : ∀ before, t.get? k = some before → Diff.isFile before = true) :
    reasonAgainst t k ((n.member? "hash").getD .null) = .unchanged ↔
    Kept t (describedAll now t) k n := by
  rw [reasonAgainst]
  cases hold : t.get? k with
  | none => simp [Kept, hold]
  | some before =>
    have hmem := mem_of_get? hold
    have hunnoted := hg.unnoted k before hmem
    obtain ⟨id, -, hid⟩ := hg.labelled k before hmem
    obtain ⟨hash, hne, hhash⟩ := hg.hashes k before hmem (hfile before hold)
    have hnoted : notedHash before = .str hash := by
      rw [notedHash, hhash]
      exact orElse_of_truthy (by simpa [truthy] using hne) _
    have hsame : (notedHash before).same ((n.member? "hash").getD .null) = true ↔
        n.member? "hash" = before.member? "hash" := by
      rw [hnoted, hhash, str_same]
      cases n.member? "hash" <;> simp
    have hkept : Kept t (describedAll now t) k n ↔
        ((described now before).member? "llm_enrichment").isSome = true ∧
          n.member? "hash" = before.member? "hash" := by
      simp [Kept, hold, get?_describedAll, hfile before hold]
    rw [hkept, ← hsame, isSome_described hid hunnoted]
    cases hnote : noteFor? before <;> simp [hnote]

/-- The report, with the files that wait and those that do not. -/
def listing (now : String) (pending skipped : List Entry) : Json :=
  .obj [("_generated_at", .str now), ("_mode", .str "incremental"),
    ("_summary", .obj [("total_files", .int (pending.length + skipped.length)),
      ("pending_enrichment", .int pending.length), ("skipped", .int skipped.length)]),
    ("files_to_enrich", .arr (pending.map Entry.document)),
    ("files_skipped", .arr (skipped.map Entry.document))]

lemma length_filter_add (entries : List Entry) :
    (entries.filter fun e ↦ e.reason.isPending).length +
      (entries.filter fun e ↦ !e.reason.isPending).length = entries.length := by
  rw [← length_append]
  exact (filter_append_perm _ entries).length_eq

lemma surveyDocument_eq (now : String) (entries : List Entry) :
    surveyDocument now "incremental" entries =
      listing now (entries.filter fun e ↦ e.reason.isPending)
        (entries.filter fun e ↦ !e.reason.isPending) := by
  have hlength := length_filter_add entries
  simp only [surveyDocument, listing, partition_eq_filter_filter, Function.comp_def]
  rw [← hlength]
  rfl

/-- A later graph, under ids that are distinct: none of its files has the id of what was no file. -/
structure Later (t : Table Key Json) (g' : Json) (t' : Table Key Json) : Prop where
  nodes : nodesOf g' = .ok t'.values
  distinct : t'.keys.Nodup
  identified : Identified t'
  files : ∀ k n, (k, n) ∈ t' → Diff.isFile n = true → ∀ before, t.get? k = some before →
    Diff.isFile before = true

lemma isPending_eq_false_iff {r : Reason} : r.isPending = false ↔ r = .unchanged := by
  cases r <;> decide

def Entry.key? (e : Entry) : Option Key := e.id.key?

lemma key?_entryOf (t : Table Key Json) (hidentified : Identified t')
     (hmem : (k, n) ∈ t') : (entryOf t (k, n)).key? = some k := by
  obtain ⟨id, hid, hkey⟩ := hidentified k n hmem
  rw [Entry.key?, entryOf, hid]
  exact hkey

lemma map_key?_entries (t : Table Key Json) (hidentified : Identified t') :
    ((filesIn t').map (entryOf t)).map Entry.key? = (filesIn t').keys.map some := by
  rw [map_map, Table.keys, map_map]
  exact map_congr_left fun e he ↦ key?_entryOf t hidentified (mem_of_mem_filter he)

section

variable {t : Table Key Json} (hdistinct : t'.keys.Nodup) (hidentified : Identified t')
  (hin : (k, n) ∈ filesIn t')
include hdistinct hidentified hin

lemma count_key?_entries : (((filesIn t').map (entryOf t)).map Entry.key?).count (some k) = 1 := by
  have hkeys : (filesIn t').keys.Nodup := hdistinct.sublist (filter_sublist.map Prod.fst)
  rw [map_key?_entries t hidentified]
  refine count_eq_one_of_mem (hkeys.map (Option.some_injective _)) ?_
  exact mem_map.2 ⟨k, mem_keys_of_mem hin, rfl⟩

lemma some_mem_skipped_iff :
    some k ∈ (((filesIn t').map (entryOf t)).filter fun e ↦ !e.reason.isPending).map Entry.key? ↔
      reasonAgainst t k ((n.member? "hash").getD .null) = .unchanged := by
  have hmem := mem_of_mem_filter hin
  rw [mem_map]
  constructor
  · rintro ⟨entry, hentry, hkey⟩
    obtain ⟨hentry, hreason⟩ := mem_filter.1 hentry
    obtain ⟨⟨k', n'⟩, hin', rfl⟩ := mem_map.1 hentry
    have hmem' := mem_of_mem_filter hin'
    rw [key?_entryOf t hidentified hmem', Option.some.injEq] at hkey
    subst hkey
    obtain rfl :=
      Option.some.inj ((get?_of_mem hdistinct hmem).symm.trans (get?_of_mem hdistinct hmem'))
    rw [Bool.not_eq_true', isPending_eq_false_iff] at hreason
    exact hreason
  · intro hreason
    have hunchanged : (entryOf t (k, n)).reason = .unchanged := hreason
    refine ⟨entryOf t (k, n), mem_filter.2 ⟨mem_map.2 ⟨_, hin, rfl⟩, ?_⟩,
      key?_entryOf t hidentified hmem⟩
    rw [hunchanged]
    rfl

end

/-- Describing a graph gives notes to just the nodes that a prepared note fits and those of the
demonstration. The list of files of any later graph then has one entry for each file, among those
that wait or among those that are skipped, and skips just the files that have kept what was noted.
-/
theorem listing_after_describing {g : Json} {t : Table Key Json} (hg : Unnoted g t) (now : String) :
    ∃ noted done, Demonstration.describe now g = .ok noted ∧ nodesOf noted = .ok (values done) ∧
      done.keys = t.keys ∧
      (∀ k n m, t.get? k = some n → done.get? k = some m →
        ((m.member? "llm_enrichment").isSome = true ↔
          (∃ e ∈ Catalog.applicationNotes, fits e.1 n = true) ∨ isDemonstrated n = true)) ∧
      ∀ g' t' today, Later t g' t' → ∃ entries pending skipped,
        survey false g' noted = .ok entries ∧
        surveyDocument today "incremental" entries = listing today pending skipped ∧
        pending.length + skipped.length = (filesIn t').length ∧
        ∀ k n, (k, n) ∈ t' → Diff.isFile n = true →
          ((pending ++ skipped).map Entry.key?).count (some k) = 1 ∧
          (some k ∈ skipped.map Entry.key? ↔ Kept t done k n) := by
  obtain ⟨noted, hdescribe, hnodes, hnoted⟩ := exists_describe hg now
  refine ⟨noted, describedAll now t, hdescribe, hnodes, keys_describedAll now t, ?_, ?_⟩
  · intro k n m hn hm
    obtain ⟨id, -, hid⟩ := hg.labelled k n (mem_of_get? hn)
    rw [get?_describedAll, hn] at hm
    obtain rfl := Option.some.inj hm
    rw [isSome_described hid (hg.unnoted k n (mem_of_get? hn)), isSome_noteFor?]
  · intro g' t' today hlater
    refine ⟨_, _, _, survey_eq hg hnoted hlater.nodes hlater.identified,
      surveyDocument_eq _ _, ?_, ?_⟩
    · rw [length_filter_add, List.length_map]
    · intro k n hmem hfile
      have hin : (k, n) ∈ filesIn t' := List.mem_filter.2 ⟨hmem, hfile⟩
      refine ⟨?_, ?_⟩
      · rw [((List.filter_append_perm _ _).map Entry.key?).count_eq]
        exact count_key?_entries hlater.distinct hlater.identified hin
      · rw [some_mem_skipped_iff hlater.distinct hlater.identified hin]
        exact reasonAgainst_eq_unchanged_iff hg now (hlater.files k n hmem hfile)

/-- A file with a path and a hash. -/
def sourceEntry (path hash : String) : Key × Json :=
  (.str s!"File:{path}", .obj [("id", .str s!"File:{path}"), ("name", .str path),
    ("node_type", .str "File"), ("file_path", .str path), ("hash", .str hash)])

/-- Two files of the demonstration and one other. -/
def firstNodes : Table Key Json :=
  [sourceEntry "a_demo.py" "1", sourceEntry "b_demo.py" "2", sourceEntry "c.py" "3"]

/-- One of them has changed, and there is a new one. -/
def laterNodes : Table Key Json :=
  [sourceEntry "a_demo.py" "1", sourceEntry "b_demo.py" "4", sourceEntry "c.py" "3",
    sourceEntry "d_demo.py" "5"]

lemma unnoted_firstNodes : Unnoted (Enrichment.graphOf firstNodes []) firstNodes := by
  have hmem {k : Key} {n : Json} (hn : (k, n) ∈ firstNodes) : ∃ path hash,
      hash ≠ "" ∧ (k, n) = sourceEntry path hash := by
    simp only [firstNodes, mem_cons, not_mem_nil, or_false] at hn
    rcases hn with hn | hn | hn <;> exact ⟨_, _, by decide, hn⟩
  refine ⟨rfl, by decide, by decide, fun k n hn v hv ↦ ?_, fun k n hn _ ↦ ?_, fun k n hn ↦ ?_⟩
  · obtain ⟨path, hash, -, heq⟩ := hmem hn
    cases heq
    exact ⟨path, (Option.some.inj hv).symm⟩
  · obtain ⟨path, hash, hne, heq⟩ := hmem hn
    cases heq
    exact ⟨hash, hne, rfl⟩
  · obtain ⟨path, hash, -, heq⟩ := hmem hn
    cases heq
    rfl

lemma later_laterNodes : Later firstNodes (Enrichment.graphOf laterNodes []) laterNodes := by
  refine ⟨rfl, by decide, Labelled.identified (by decide), fun k n _ _ before hbefore ↦ ?_⟩
  have hfiles : ∀ e ∈ firstNodes, Diff.isFile e.2 = true := by decide
  exact hfiles _ (mem_of_get? hbefore)

theorem listing_after_describing_laterNodes :
    Unnoted (Enrichment.graphOf firstNodes []) firstNodes ∧
    Later firstNodes (Enrichment.graphOf laterNodes []) laterNodes ∧
    ∃ noted entries pending skipped,
      Demonstration.describe "" (Enrichment.graphOf firstNodes []) = .ok noted ∧
      survey false (Enrichment.graphOf laterNodes []) noted = .ok entries ∧
      surveyDocument "" "incremental" entries = listing "" pending skipped ∧
      pending.length + skipped.length = 4 ∧
      some (.str "File:a_demo.py") ∈ skipped.map Entry.key? ∧
      some (.str "File:b_demo.py") ∉ skipped.map Entry.key? := by
  refine ⟨unnoted_firstNodes, later_laterNodes, ?_⟩
  obtain ⟨noted, done, hdescribe, -, hkeys, hdone, hlater⟩ :=
    listing_after_describing unnoted_firstNodes ""
  obtain ⟨entries, pending, skipped, hsurvey, hdocument, hlength, hskipped⟩ :=
    hlater _ _ "" later_laterNodes
  refine ⟨noted, entries, pending, skipped, hdescribe, hsurvey, hdocument, hlength, ?_, ?_⟩
  · refine ((hskipped (.str "File:a_demo.py") (sourceEntry "a_demo.py" "1").2 (by decide) rfl).2).2
      ?_
    have hmem : Key.str "File:a_demo.py" ∈ done.keys := by
      rw [hkeys]
      decide
    obtain ⟨m, hm⟩ := exists_of_mem_keys hmem
    exact ⟨(sourceEntry "a_demo.py" "1").2, m, rfl, rfl, hm, (hdone _ _ _ rfl hm).2 (.inr rfl), rfl⟩
  · rw [(hskipped (.str "File:b_demo.py") (sourceEntry "b_demo.py" "4").2 (by decide) rfl).2]
    rintro ⟨before, m, hbefore, -, -, -, hhash⟩
    obtain rfl : (sourceEntry "b_demo.py" "2").2 = before := Option.some.inj hbefore
    exact absurd hhash (by decide)

end CodeAtlas.Graph.Notes
