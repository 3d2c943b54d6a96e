import CodeAtlas.Proofs.IncrementalRoles
import CodeAtlas.Proofs.Ownership

/-!
# The status of every node

A report speaks of each node of two graphs at most once, and its numbers count the nodes of each
status. A node is added just if it is new, removed just if it is gone, and unchanged just if the
file that owns it has kept its hash. The only nodes without a status are those of both graphs that
no file owns and that are not written the same: they have changed, but the report is silent about
them.
-/

namespace CodeAtlas.Graph.Diff

open Fallible List Enrichment Json Table

variable {k : Key} {file : Option Status} {owner : Json}
variable {before : Json} {edges : List Json} {nodes old owners : Table Key Json}

/-! ## Tables of statuses -/

def classified (status : Key → Option Status) (keys : List Key) : Table Key Status :=
  keys.filterMap fun k ↦ (status k).map (Prod.mk k)

section Classified

variable (status : Key → Option Status) (keys : List Key)

lemma keys_classified : (classified status keys).keys = keys.filter fun k ↦ (status k).isSome := by
  unfold classified
  induction keys with
  | nil => rfl
  | cons k rest ih =>
    rw [filterMap_cons, filter_cons]
    cases status k with
    | none => exact ih
    | some s => exact congrArg (List.cons k) ih

lemma get?_classified (k : Key) :
    (classified status keys).get? k = if k ∈ keys then status k else none := by
  unfold classified
  induction keys with
  | nil => rfl
  | cons k' rest ih =>
    rw [filterMap_cons]
    by_cases hk : k' = k
    · subst hk
      cases hs : status k' with
      | none => simp [ih, hs]
      | some s => simp [get?_cons]
    · cases hs : status k' with
      | none => simp [ih, Ne.symm hk]
      | some s => simp [get?_cons, hk, ih, Ne.symm hk]

lemma length_filter_classified (s : Status) :
    ((classified status keys).filter fun e ↦ e.2 = s).length =
      (keys.filter fun k ↦ status k = some s).length := by
  unfold classified
  induction keys with
  | nil => rfl
  | cons k rest ih =>
    rw [filterMap_cons, filter_cons]
    cases hs : status k with
    | none => simpa using ih
    | some s' =>
      by_cases heq : s' = s <;> simpa [heq] using ih

lemma length_eq_of_statuses : (keys.filter fun k ↦ status k = some .added).length +
      (keys.filter fun k ↦ status k = some .modified).length +
      (keys.filter fun k ↦ status k = some .unchanged).length +
      (keys.filter fun k ↦ status k = some .removed).length +
      (keys.filter fun k ↦ (status k).isNone).length = keys.length := by
  induction keys with
  | nil => rfl
  | cons k rest ih =>
    cases hs : status k with
    | none =>
      simp [hs]
      omega
    | some s =>
      cases s <;> simp [hs] <;> omega

end Classified

lemma nodup_unionKeys {β γ : Type} {t : Table Key β} {u : Table Key γ} (ht : t.keys.Nodup)
    (hu : u.keys.Nodup) : (unionKeys t u).Nodup := by
  rw [unionKeys, nodup_append]
  refine ⟨ht, hu.filter _, ?_⟩
  intro k hk k' hk' heq
  subst heq
  simp [Table.contains_iff.2 hk] at hk'

/-! ## The status of a node -/

/-- The status of the file that owns a node now, if there is such a file. -/
def ownerChange (owners nodes old : Table Key Json) (k : Key) : Option Status :=
  (((owners.get? k).filter Json.truthy).bind Json.key?).map fun f ↦
    fileStatus (fileHash? nodes f) (fileHash? old f)

/-- The status that a node of either graph has in a report. -/
def statusOf (owners nodes old : Table Key Json) (k : Key) : Option Status :=
  nodeStatus (nodes.get? k) (old.get? k) (ownerChange owners nodes old k)

/-- A node of both graphs that is not written the same in both, and that no file owns. -/
def isOverlooked (owners nodes old : Table Key Json) (k : Key) : Bool :=
  match nodes.get? k, old.get? k with
  | some n, some b => !(owners.get? k).any Json.truthy && !isSameText n b
  | _, _ => false

section Owned

variable {edges : List Json}

lemma exists_ownerChange (howners : Holds (OwnedFrom nodes edges) owners) (old : Table Key Json)
    (howner : owners.get? k = some owner) (htruthy : owner.truthy = true) :
    ∃ f hash, owner.key? = some f ∧ fileHash? nodes f = some hash ∧
      ownerChange owners nodes old k = some (fileStatus (some hash) (fileHash? old f)) := by
  obtain ⟨f, ⟨hf, hfile⟩, -⟩ := howners k owner howner
  obtain ⟨hash, hhash⟩ := Option.isSome_iff_exists.1 hfile
  refine ⟨f, hash, hf, hhash, ?_⟩
  simp [ownerChange, howner, Option.filter, htruthy, hf, hhash]

lemma fileStatus_some_ne_removed (hash : Json) (before : Option Json) :
    fileStatus (some hash) before ≠ .removed := by
  cases before with
  | none => simp [fileStatus]
  | some old =>
    rw [fileStatus]
    split
    · simp
    · split <;> simp

lemma ownerStatus_eq (howners : Holds (OwnedFrom nodes edges) owners)
    {nowHashes beforeHashes : Table Key Json} (hnow : ∀ k, nowHashes.get? k = fileHash? nodes k)
    (hbefore : ∀ k, beforeHashes.get? k = fileHash? old k) (k : Key) :
    ownerStatus owners (fileStatuses nowHashes beforeHashes) k =
    .ok (ownerChange owners nodes old k) := by
  rw [ownerStatus]
  cases howner : owners.get? k with
  | none => simp [ownerChange, howner, pure, Except.pure]
  | some owner =>
    by_cases htruthy : owner.truthy = true
    · obtain ⟨f, hash, hf, hhash, hchange⟩ := exists_ownerChange howners old howner htruthy
      have hmem : f ∈ unionKeys nowHashes beforeHashes := by
        rw [mem_unionKeys, mem_keys_iff, hnow, hhash]
        exact .inl rfl
      simp only [htruthy, if_true, key_eq_ok.2 hf, bind, Except.bind]
      rw [get?_fileStatuses, if_pos hmem, hnow, hbefore, hchange, hhash]
      rfl
    · simp [ownerChange, howner, Option.filter, htruthy, pure, Except.pure]

lemma statusOf_eq_none_iff (howners : Holds (OwnedFrom nodes edges) owners) (k : Key) :
    statusOf owners nodes old k = none ↔ isOverlooked owners nodes old k = true := by
  unfold statusOf isOverlooked
  cases nodes.get? k with
  | none => simp [nodeStatus]
  | some n =>
    cases old.get? k with
    | none => simp [nodeStatus]
    | some b =>
      have hunowned (hchange : ownerChange owners nodes old k = none) :
          nodeStatus (some n) (some b) (ownerChange owners nodes old k) = none ↔
          isSameText n b = false := by
        rw [hchange]
        cases hsame : isSameText n b <;> simp [nodeStatus, hsame]
      cases howner : owners.get? k with
      | none =>
        rw [hunowned (by simp [ownerChange, howner])]
        simp
      | some owner =>
        by_cases htruthy : owner.truthy = true
        · obtain ⟨f, hash, -, -, hchange⟩ := exists_ownerChange howners old howner htruthy
          have hnot := fileStatus_some_ne_removed hash (fileHash? old f)
          rw [hchange]
          cases hstatus : fileStatus (some hash) (fileHash? old f) with
          | removed => exact absurd hstatus hnot
          | _ => simp [nodeStatus, htruthy]
        · rw [hunowned (by simp [ownerChange, howner, Option.filter, htruthy])]
          simp [htruthy]

end Owned

/-! ## Reports are always given -/

/-- What a graph is compared with: nothing, or another graph. -/
inductive Forerunner (before : Json) : Table Key Json → Prop
  | absent (hnone : before.truthy = false) : Forerunner before []
  | present {old : Table Key Json} {edges : List Json} (hold : Tabled before old)
      (hedges : Ownable before edges) : Forerunner before old

lemma Forerunner.distinct (h : Forerunner before old) : old.keys.Nodup := by
  cases h with
  | absent => exact nodup_nil
  | present hold => exact hold.distinct

section Totality

variable {g : Json}

lemma exists_fileHashes (hg : Tabled g nodes) : ∃ hashes, fileHashes nodes.values = .ok hashes := by
  refine foldlM_succeeds (fun hashes n hn ↦ ?_) []
  obtain ⟨⟨k, n⟩, hmem, rfl⟩ := mem_map.1 hn
  obtain ⟨id, hid, hkey⟩ := hg.identified k n hmem
  have hobj := isObject_of_member? hid
  simp only [isFileNode_eq_ok hobj, need_eq_ok.2 hid, key_eq_ok.2 hkey,
    get_eq_ok.2 ⟨hobj, rfl⟩, bind, Except.bind]
  split <;> exact ⟨_, rfl⟩

lemma exists_idsOf (hg : Tabled g nodes) : ∃ ids files, idsOf nodes.values = .ok (ids, files) := by
  have hids : ∃ ids, nodes.values.mapM (·.need "id") = .ok ids := by
    refine exists_mapM_of_forall fun n hn ↦ ?_
    obtain ⟨⟨k, n⟩, hmem, rfl⟩ := mem_map.1 hn
    obtain ⟨id, hid, -⟩ := hg.identified k n hmem
    exact ⟨id, need_eq_ok.2 hid⟩
  obtain ⟨ids, hids⟩ := hids
  refine ⟨ids, filesAmong nodes.values, ?_⟩
  simp only [idsOf, bind_eq_ok, pure_eq_ok]
  exact ⟨ids, hids, _, hg.rooted.fileIds_eq, rfl⟩

/-- The ids with which the members of a report are named. -/
def NamesIds (nodes : Table Key Json) (ids : List Json) : Prop :=
  ∃ files, idsOf nodes.values = .ok (ids, files)

lemma count_bump (stats : Table Status Nat) (s t : Status) :
    ((bump stats s).get? t).getD 0 = (stats.get? t).getD 0 + if s = t then 1 else 0 := by
  rw [bump, get?_put]
  by_cases h : s = t
  · simp [h]
  · simp [h, Ne.symm h]

lemma count_foldl_bump (statuses : Table Key Status) (stats : Table Status Nat) (t : Status) :
    ((statuses.foldl (fun stats e ↦ bump stats e.2) stats).get? t).getD 0 =
      (stats.get? t).getD 0 + (statuses.filter fun e ↦ e.2 = t).length := by
  induction statuses generalizing stats with
  | nil => rfl
  | cons e rest ih =>
    rw [foldl_cons, ih, count_bump, filter_cons]
    by_cases h : e.2 = t <;> simp [h, Nat.add_assoc, Nat.add_comm 1]

/-- A report has the status of every node of two graphs that has one, counts them, and knows how to
name the nodes. -/
structure Covers (owners nodes old : Table Key Json) (r : Report) : Prop where
  counts : ∀ s, r.count s = (r.nodes.filter fun e ↦ e.2 = s).length
  statuses : r.nodes = classified (statusOf owners nodes old) (unionKeys nodes old)
  named : ∃ ids ids', NamesIds nodes ids ∧ NamesIds old ids' ∧ r.nodeIds = ids ++ ids'

lemma exists_between {now : Json} {edges' : List Json}
    (hnow : Tabled now nodes) (hedges : Ownable now edges) (hbefore : Tabled before old)
    (hedges' : Ownable before edges') :
    ∃ owners r, ownersOf now = .ok owners ∧ Holds (OwnedFrom nodes edges) owners ∧
      between now before = .ok r ∧ Covers owners nodes old r := by
  obtain ⟨nowHashes, hnowHashes⟩ := exists_fileHashes hnow
  obtain ⟨beforeHashes, hbeforeHashes⟩ := exists_fileHashes hbefore
  obtain ⟨owners, howners, hholds⟩ := exists_ownersOf hnow hedges
  obtain ⟨owners', howners', -⟩ := exists_ownersOf hbefore hedges'
  obtain ⟨ids, files, hids⟩ := exists_idsOf hnow
  obtain ⟨ids', files', hids'⟩ := exists_idsOf hbefore
  have hstatus (k : Key) : ownerStatus owners (fileStatuses nowHashes beforeHashes) k =
      .ok (ownerChange owners nodes old k) :=
    ownerStatus_eq hholds (get?_fileHashes hnow.distinct hnow.identified hnowHashes)
      (get?_fileHashes hbefore.distinct hbefore.identified hbeforeHashes) k
  have hnodes : (unionKeys nodes old).filterMapM (fun k ↦ do
      let file ← ownerStatus owners (fileStatuses nowHashes beforeHashes) k
      return (nodeStatus (nodes.get? k) (old.get? k) file).map fun s ↦ (k, s)) =
        (.ok (classified (statusOf owners nodes old) (unionKeys nodes old)) :
          Except Fault (Table Key Status)) := by
    refine filterMapM_of_forall fun k _ ↦ ?_
    rw [hstatus]
    rfl
  refine ⟨owners, ⟨fileStatuses nowHashes beforeHashes, _, _, files ++ files', ids ++ ids'⟩,
    howners,
    hholds, ?_, fun s ↦ (count_foldl_bump _ [] s).trans (Nat.zero_add _), rfl, ids,
    ids', ⟨files, hids⟩, ⟨files', hids'⟩, rfl⟩
  simp only [between, hnow.nodes, hbefore.nodes, bind_eq_ok, pure_eq_ok, Except.ok.injEq,
    exists_eq_left', nodesById_values hnow.distinct hnow.identified,
    nodesById_values hbefore.distinct hbefore.identified]
  exact ⟨nowHashes, hnowHashes, beforeHashes, hbeforeHashes, owners, howners, owners', howners', _,
    hnodes, _, hids, _, hids', rfl⟩

/-- What the report on a graph without a forerunner notes of one more node. -/
def noteAdded (r : Report) (n : Json) : Except Fault Report := do
  let id ← (← n.need "id").key
  let r := { r with nodes := r.nodes.put id .added, stats := bump r.stats .added }
  if ← isFileNode n then return { r with files := r.files.put id .added } else return r

lemma noteAdded_eq_ok {n id : Json} (hid : n.member? "id" = some id) (hk : id.key? = some k)
    (r : Report) : ∃ r', noteAdded r n = .ok r' ∧ r'.nodes = r.nodes.put k .added ∧
      r'.stats = bump r.stats .added := by
  rw [noteAdded, need_eq_ok.2 hid]
  simp only [key_eq_ok.2 hk, isFileNode_eq_ok (isObject_of_member? hid), bind, Except.bind]
  split <;> exact ⟨_, rfl, rfl, rfl⟩

lemma exists_foldlM_noteAdded {rest : Table Key Json} (hrest : Identified rest) (r : Report)
    (hcounts : ∀ s, r.count s = (r.nodes.filter fun e ↦ e.2 = s).length)
    (hdistinct : (r.nodes.keys ++ rest.keys).Nodup) :
    ∃ r', rest.values.foldlM noteAdded r = .ok r' ∧
      (∀ s, r'.count s = (r'.nodes.filter fun e ↦ e.2 = s).length) ∧
      r'.nodes = r.nodes ++ classified (fun _ ↦ some .added) rest.keys := by
  induction rest generalizing r with
  | nil => exact ⟨r, rfl, hcounts, (append_nil _).symm⟩
  | cons e rest ih =>
    obtain ⟨k, n⟩ := e
    obtain ⟨id, hid, hk⟩ := hrest k n mem_cons_self
    obtain ⟨r', hr', hnodes, hstats⟩ := noteAdded_eq_ok hid hk r
    have hnew : k ∉ r.nodes.keys :=
      fun hmem ↦ (nodup_append.1 hdistinct).2.2 k hmem k mem_cons_self rfl
    rw [put_of_notMem hnew] at hnodes
    have hdistinct' : (r'.nodes.keys ++ keys rest).Nodup := by
      rw [hnodes, Table.keys_append, append_assoc]
      exact hdistinct
    have hcounts' (s : Status) : r'.count s = (r'.nodes.filter fun e ↦ e.2 = s).length := by
      rw [Report.count, hstats, count_bump, ← Report.count, hcounts, hnodes, filter_append,
        length_append]
      by_cases h : Status.added = s <;> simp [h]
    obtain ⟨r'', hr'', hcounts'', hnodes'⟩ :=
      ih (fun k n h ↦ hrest k n (mem_cons_of_mem _ h)) r' hcounts' hdistinct'
    refine ⟨r'', ?_, hcounts'', ?_⟩
    · rw [values, map_cons, foldlM_cons, hr']
      exact hr''
    · rw [hnodes', hnodes, append_assoc]
      rfl

lemma exists_first (hg : Tabled g nodes) :
    ∃ (r : Report) (ids : List Json), first g = .ok r.document ∧
      (∀ s, r.count s = (r.nodes.filter fun e ↦ e.2 = s).length) ∧
      r.nodes = classified (fun _ ↦ some .added) nodes.keys ∧ NamesIds nodes ids ∧
      r.nodeIds = ids := by
  obtain ⟨r, hr, hcounts, hnodes⟩ := exists_foldlM_noteAdded hg.identified {}
    (fun _ ↦ rfl) hg.distinct
  obtain ⟨ids, files, hids⟩ := exists_idsOf hg
  refine ⟨{ r with nodeIds := ids, fileIds := files }, ids, ?_, hcounts, hnodes, ⟨files, hids⟩, rfl⟩
  simp only [first, hg.nodes, bind_eq_ok, pure_eq_ok, Except.ok.injEq, exists_eq_left']
  exact ⟨r, hr, (ids, files), hids, rfl⟩

end Totality

section Report

variable {now : Json}

lemma classified_congr {status status' : Key → Option Status} {keys : List Key}
    (h : ∀ k ∈ keys, status k = status' k) : classified status keys = classified status' keys := by
  apply filterMap_congr
  intro k hk
  rw [h k hk]

/-- There is a report on any graph, with a forerunner or without, and it has the status of each
node. -/
lemma exists_report (hnow : Tabled now nodes) (hedges : Ownable now edges)
    (hbefore : Forerunner before old) :
    ∃ owners r, ownersOf now = .ok owners ∧ Holds (OwnedFrom nodes edges) owners ∧
      report now before = .ok (Report.document r) ∧ Covers owners nodes old r := by
  cases hbefore with
  | absent hnone =>
    obtain ⟨owners, howners, hholds⟩ := exists_ownersOf hnow hedges
    obtain ⟨r, ids, hr, hcounts, hnodes, hids, hnodeIds⟩ := exists_first hnow
    have hunion : unionKeys nodes ([] : Table Key Json) = nodes.keys := append_nil _
    have hadded : ∀ k ∈ nodes.keys, some .added = statusOf owners nodes [] k := by
      intro k hk
      obtain ⟨n, hn⟩ := exists_of_mem_keys hk
      rw [statusOf, hn]
      rfl
    refine ⟨owners, r, howners, hholds, ?_, hcounts, ?_, ids, [], hids, ⟨[], rfl⟩, ?_⟩
    · rw [report, hnone]
      exact hr
    · rw [hnodes, hunion]
      exact classified_congr hadded
    · rw [hnodeIds, append_nil]
  | present hold hedges' =>
    obtain ⟨owners, r, howners, hholds, hr, hcovers⟩ :=
      exists_between hnow hedges hold hedges'
    have htruthy : before.truthy = true := by
      obtain ⟨listed, hlisted, -⟩ := bind_eq_ok.1 hold.nodes
      exact truthy_of_member? (need_eq_ok.1 hlisted)
    refine ⟨owners, r, howners, hholds, ?_, hcovers⟩
    rw [report, if_pos htruthy, hr]
    rfl

namespace Covers

variable {r : Report}

lemma nodup (h : Covers owners nodes old r) (hnow : nodes.keys.Nodup) (hold : old.keys.Nodup) :
    r.nodes.keys.Nodup := by
  rw [h.statuses, keys_classified]
  exact (nodup_unionKeys hnow hold).filter _

lemma get? (h : Covers owners nodes old r) (k : Key) : r.nodes.get? k =
    if k ∈ nodes.keys ∨ k ∈ old.keys then statusOf owners nodes old k else none := by
  rw [h.statuses, get?_classified]
  simp only [mem_unionKeys]

lemma mem_keys_iff (h : Covers owners nodes old r) (hholds : Holds (OwnedFrom nodes edges) owners)
    (k : Key) : k ∈ r.nodes.keys ↔
      (k ∈ nodes.keys ∨ k ∈ old.keys) ∧ isOverlooked owners nodes old k = false := by
  rw [h.statuses, keys_classified, mem_filter, mem_unionKeys, ← Bool.not_eq_true,
    ← statusOf_eq_none_iff hholds, Option.isSome_iff_ne_none]

lemma count_eq (h : Covers owners nodes old r) (s : Status) :
    r.count s = ((unionKeys nodes old).filter fun k ↦ r.nodes.get? k = some s).length := by
  rw [h.counts, h.statuses, length_filter_classified]
  congr 1
  apply filter_congr
  intro k hk
  rw [get?_classified, if_pos hk]

/-- The numbers of a report add up to the number of all nodes but the overlooked ones. -/
lemma sum_count (h : Covers owners nodes old r) (hholds : Holds (OwnedFrom nodes edges) owners) :
    r.count .added + r.count .modified + r.count .unchanged + r.count .removed +
      ((unionKeys nodes old).filter (isOverlooked owners nodes old)).length =
      (unionKeys nodes old).length := by
  have hcount (s : Status) : r.count s =
      ((unionKeys nodes old).filter fun k ↦ statusOf owners nodes old k = some s).length := by
    rw [h.counts, h.statuses, length_filter_classified]
  have hnone : isOverlooked owners nodes old = fun k ↦ (statusOf owners nodes old k).isNone := by
    funext k
    rw [Bool.eq_iff_iff, Option.isNone_iff_eq_none, statusOf_eq_none_iff hholds]
  rw [hcount, hcount, hcount, hcount, hnone]
  exact length_eq_of_statuses _ _

end Covers

/-! ## What is written -/

def statusIn (doc : Json) (id : String) : Option Json :=
  (doc.member? "node_status").bind fun statuses ↦ statuses.member? id

/-- The name under which a report tells how many nodes have a status. -/
def numberName : Status → String
  | .added => "added"
  | .modified => "modified"
  | .unchanged => "unchanged"
  | .removed => "removed"

def numberIn (doc : Json) (s : Status) : Option Json :=
  (doc.member? "stats").bind fun stats ↦ stats.member? (numberName s)

lemma numberIn_document (r : Report) (s : Status) :
    numberIn r.document s = some (.int (r.count s)) := by
  cases s <;> rfl

def TextKeys (t : Table Key Json) : Prop := ∀ k ∈ t.keys, ∃ id, k = .str id

lemma NamesIds.texts {ids : List Json} (h : NamesIds nodes ids) (hidentified : Identified nodes)
    (htexts : TextKeys nodes) :
    (∀ v ∈ ids, ∃ id, v = .str id) ∧ ∀ id, .str id ∈ nodes.keys → .str id ∈ ids := by
  obtain ⟨files, hids⟩ := h
  obtain ⟨texts, hkeys, rfl⟩ := exists_texts_of_idsOf (hidentified.labelled htexts) hids
  constructor
  · intro v hv
    obtain ⟨id, -, rfl⟩ := mem_map.1 hv
    exact ⟨id, rfl⟩
  · intro id hid
    rw [hkeys, mem_map] at hid
    obtain ⟨id', hid', heq⟩ := hid
    cases heq
    exact mem_map_of_mem hid'

lemma Forerunner.identified (h : Forerunner before old) : Identified old := by
  cases h with
  | absent => simp [Identified]
  | present hold => exact hold.identified

lemma Covers.statusIn_document {r : Report}
    (h : Covers owners nodes old r) (hnow : Identified nodes) (hbefore : Identified old)
    (htexts : TextKeys nodes) (htexts' : TextKeys old) (id : String) :
    statusIn r.document id = (r.nodes.get? (.str id)).map fun s ↦ .str s.name := by
  obtain ⟨ids, ids', hids, hids', hnodeIds⟩ := h.named
  obtain ⟨htext, hmem⟩ := hids.texts hnow htexts
  obtain ⟨htext', hmem'⟩ := hids'.texts hbefore htexts'
  have hwritten : statusIn r.document id = (statusMembers r.nodeIds r.nodes).member? id := rfl
  apply member?_statusMembers
  · intro v hv
    rw [hnodeIds, mem_append] at hv
    exact hv.elim (htext v) (htext' v)
  · intro k hk
    rw [h.statuses, keys_classified, mem_filter, mem_unionKeys] at hk
    rw [hnodeIds]
    rcases hk.1 with hk | hk
    · obtain ⟨id, rfl⟩ := htexts k hk
      exact ⟨id, rfl, mem_append_left _ (hmem id hk)⟩
    · obtain ⟨id, rfl⟩ := htexts' k hk
      exact ⟨id, rfl, mem_append_right _ (hmem' id hk)⟩

/-! ## The reasons of a status -/

lemma nodeStatus_both_ne (n b : Json) (file : Option Status) :
    nodeStatus (some n) (some b) file ≠ some .added ∧ nodeStatus (some n)
    (some b) file ≠ some .removed := by
  cases file with
  | none => cases hsame : isSameText n b <;> simp [nodeStatus, hsame]
  | some status => cases status <;> cases hsame : isSameText n b <;> simp [nodeStatus, hsame]

lemma nodeStatus_eq_added {now before : Option Json} :
    nodeStatus now before file = some .added ↔ now.isSome = true ∧ before = none := by
  cases now with
  | none => simp [nodeStatus]
  | some n =>
    cases before with
    | none => simp [nodeStatus]
    | some b => simpa using (nodeStatus_both_ne n b file).1

lemma nodeStatus_eq_removed {now before : Option Json} :
    nodeStatus now before file = some .removed ↔ now = none := by
  cases now with
  | none => simp [nodeStatus]
  | some n =>
    cases before with
    | none => simp [nodeStatus]
    | some b => simpa using (nodeStatus_both_ne n b file).2

/-- A file is in both graphs and has a hash in both, the same one. -/
def SameHash (nodes old : Table Key Json) (f : Key) : Prop :=
  ∃ hash before, fileHash? nodes f = some hash ∧ fileHash? old f = some before ∧ hash ≠ .null ∧
    before ≠ .null ∧ hash.same before = true

lemma ownerChange_eq_unchanged :
    ownerChange owners nodes old k = some .unchanged ↔ ∃ file f, owners.get? k = some file ∧
      file.truthy = true ∧ file.key? = some f ∧ SameHash nodes old f := by
  simp only [ownerChange, Option.map_eq_some_iff, Option.bind_eq_some_iff,
    Option.filter_eq_some_iff, fileStatus_eq_unchanged]
  constructor
  · rintro ⟨f, ⟨file, ⟨hfile, htruthy⟩, hf⟩, hsame⟩
    exact ⟨file, f, hfile, htruthy, hf, hsame⟩
  · rintro ⟨file, f, hfile, htruthy, hf, hsame⟩
    exact ⟨f, ⟨file, ⟨hfile, htruthy⟩, hf⟩, hsame⟩

/-- The owner of a node is a text where all ids are texts, and counts as true where none of them is
empty. -/
lemma owner_eq_str (hholds : Holds (OwnedFrom nodes edges) owners)
    (htexts : TextKeys nodes) (hne : .str "" ∉ nodes.keys) (howner : owners.get? k = some owner) :
    ∃ f, owner = .str f ∧ owner.truthy = true ∧ ∃ length, Walk (Owns edges) (.str f) length k := by
  obtain ⟨f, ⟨hf, hfile⟩, hwalk⟩ := hholds k owner howner
  have hmem : f ∈ nodes.keys := by
    rw [mem_keys_iff]
    cases hget : nodes.get? f with
    | none => simp [fileHash?, hget] at hfile
    | some n => rfl
  obtain ⟨id, rfl⟩ := htexts f hmem
  obtain rfl := key?_eq_str.1 hf
  refine ⟨id, rfl, ?_, hwalk⟩
  have hid : id ≠ "" := fun h ↦ hne (h ▸ hmem)
  simpa [truthy] using hid

lemma Status.name_injective : Function.Injective Status.name := by
  intro s s' h
  cases s <;> cases s' <;> simp_all [Status.name]

/-! ## Every node once -/

/-- A report has exactly one status for every node of either graph but the overlooked ones, its
numbers count the nodes of each status, and together they are as many as the nodes that it covers.
-/
theorem report_classifies (hnow : Tabled now nodes) (hedges : Ownable now edges)
    (hbefore : Forerunner before old) :
    ∃ owners r, ownersOf now = .ok owners ∧ report now before = .ok (Report.document r) ∧
      r.nodes.keys.Nodup ∧
      (∀ k, k ∈ r.nodes.keys ↔
        (k ∈ nodes.keys ∨ k ∈ old.keys) ∧ isOverlooked owners nodes old k = false) ∧
      (∀ s, numberIn r.document s = some (.int
        ((unionKeys nodes old).filter fun k ↦ r.nodes.get? k = some s).length)) ∧
      (unionKeys nodes old).Nodup ∧
      r.count .added + r.count .modified + r.count .unchanged + r.count .removed +
        ((unionKeys nodes old).filter (isOverlooked owners nodes old)).length =
        (unionKeys nodes old).length ∧
      (TextKeys nodes → TextKeys old → ∀ id,
        statusIn r.document id = (r.nodes.get? (.str id)).map fun s ↦ .str s.name) := by
  obtain ⟨owners, r, howners, hholds, hr, hcovers⟩ := exists_report hnow hedges hbefore
  have hcount (s : Status) : numberIn r.document s = some (.int
      ((unionKeys nodes old).filter fun k ↦ r.nodes.get? k = some s).length) := by
    rw [numberIn_document, hcovers.count_eq]
  exact ⟨owners, r, howners, hr, hcovers.nodup hnow.distinct hbefore.distinct,
    hcovers.mem_keys_iff hholds, hcount, nodup_unionKeys hnow.distinct hbefore.distinct,
    hcovers.sum_count hholds, hcovers.statusIn_document hnow.identified hbefore.identified⟩

/-- A node is unchanged just if both graphs have it and the file that owns it now has kept its hash;
and a chain of ownership edges leads from that file to the node. It is added just if only the new
graph has it, and removed just if only the old one has it. -/
theorem report_unchanged_iff (hnow : Listed now nodes) (hne : .str "" ∉ nodes.keys)
    (hedges : Ownable now edges) (hbefore : Forerunner before old) (hold : TextKeys old) :
    ∃ owners doc, ownersOf now = .ok owners ∧ report now before = .ok doc ∧ ∀ id,
      (statusIn doc id = some (.str "UNCHANGED") ↔ .str id ∈ nodes.keys ∧ .str id ∈ old.keys ∧
        ∃ f, owners.get? (.str id) = some (.str f) ∧ SameHash nodes old (.str f)) ∧
      (∀ f, owners.get? (.str id) = some (.str f) →
        ∃ length, Walk (Owns edges) (.str f) length (.str id)) ∧
      (statusIn doc id = some (.str "ADDED") ↔ .str id ∈ nodes.keys ∧ .str id ∉ old.keys) ∧
      (statusIn doc id = some (.str "REMOVED") ↔ .str id ∉ nodes.keys ∧ .str id ∈ old.keys) := by
  obtain ⟨owners, r, howners, hholds, hr, hcovers⟩ := exists_report hnow.tabled hedges hbefore
  have htexts : TextKeys nodes := fun k hk ↦ hnow.text_of_mem_keys hk
  refine ⟨owners, r.document, howners, hr, fun id ↦ ?_⟩
  have hstatus (s : Status) : statusIn r.document id = some (.str s.name) ↔
      (.str id ∈ nodes.keys ∨ .str id ∈ old.keys) ∧
      statusOf owners nodes old (.str id) = some s := by
    rw [hcovers.statusIn_document hnow.labelled.identified hbefore.identified htexts hold,
      hcovers.get?]
    simp [Status.name_injective.eq_iff]
  have hkeys (t : Table Key Json) : .str id ∈ t.keys ↔ (t.get? (.str id)).isSome = true :=
    Table.mem_keys_iff
  refine ⟨?_, ?_, ?_, ?_⟩
  · calc statusIn r.document id = some (.str "UNCHANGED")
        ↔ (Key.str id ∈ nodes.keys ∨ Key.str id ∈ old.keys) ∧
          statusOf owners nodes old (.str id) = some .unchanged := hstatus .unchanged
      _ ↔ Key.str id ∈ nodes.keys ∧ Key.str id ∈ old.keys ∧
          ownerChange owners nodes old (.str id) = some .unchanged := by
        rw [statusOf, nodeStatus_eq_unchanged, ← hkeys, ← hkeys]
        tauto
      _ ↔ _ := by
        rw [ownerChange_eq_unchanged]
        refine and_congr_right fun _ ↦ and_congr_right fun _ ↦ ⟨?_, ?_⟩
        · rintro ⟨file, f, hfile, -, hf, hsame⟩
          obtain ⟨f', rfl, -, -⟩ := owner_eq_str hholds htexts hne hfile
          obtain rfl := Option.some.inj hf
          exact ⟨f', hfile, hsame⟩
        · rintro ⟨f, hf, hsame⟩
          obtain ⟨f', heq, htruthy, -⟩ := owner_eq_str hholds htexts hne hf
          exact ⟨.str f, .str f, hf, htruthy, rfl, hsame⟩
  · intro f hf
    obtain ⟨f', heq, -, hwalk⟩ := owner_eq_str hholds htexts hne hf
    cases heq
    exact hwalk
  · calc statusIn r.document id = some (.str "ADDED")
        ↔ (Key.str id ∈ nodes.keys ∨ Key.str id ∈ old.keys) ∧
          statusOf owners nodes old (.str id) = some .added := hstatus .added
      _ ↔ _ := by
        rw [statusOf, nodeStatus_eq_added, ← hkeys, Table.get?_eq_none_iff]
        tauto
  · calc statusIn r.document id = some (.str "REMOVED")
        ↔ (Key.str id ∈ nodes.keys ∨ Key.str id ∈ old.keys) ∧
          statusOf owners nodes old (.str id) = some .removed := hstatus .removed
      _ ↔ _ := by
        rw [statusOf, nodeStatus_eq_removed, Table.get?_eq_none_iff]
        tauto

end Report

theorem report_unchanged_iff_shopGraph :
    ∃ doc, report Enrichment.shopGraph Enrichment.fullGraph = .ok doc ∧
      statusIn doc "a.py::Shop" = some (.str "UNCHANGED") ∧
      statusIn doc "b.py::Model" = some (.str "REMOVED") := by
  have hold : Forerunner Enrichment.fullGraph (Enrichment.shopNodes ++ Enrichment.baseNodes) :=
    .present Enrichment.listed_fullGraph.tabled (.of_keyed rfl (by decide))
  obtain ⟨owners, doc, howners, hdoc, hstatus⟩ :=
    report_unchanged_iff Enrichment.listed_shopGraph (by decide) (.of_keyed rfl (by decide)) hold
      fun k hk ↦ Enrichment.listed_fullGraph.text_of_mem_keys hk
  obtain rfl := Except.ok.inj (howners.symm.trans rfl)
  refine ⟨doc, hdoc, (hstatus _).1.2 ?_, (hstatus _).2.2.2.2 ?_⟩
  · exact ⟨by decide, by decide, "a.py", rfl, .str "1", .str "1", rfl, rfl, by simp, by simp, rfl⟩
  · exact ⟨by decide, by decide⟩

/-! ## A class that stands alone -/

/-- A class with its file, and one that no file owns. -/
def loneNodes (name : String) : Table Key Json :=
  Enrichment.shopNodes ++ [Enrichment.classEntry "x" name]

def loneEdges : List Json := [Enrichment.edgeOf "defines" "a.py" "a.py::Shop"]

def loneGraph (name : String) : Json := Enrichment.graphOf (loneNodes name) loneEdges

lemma tabled_loneGraph (name : String) : Tabled (loneGraph name) (loneNodes name) := by
  refine Listed.tabled ⟨rfl, ?_, ?_⟩
  · show [Key.str "a.py", Key.str "a.py::Shop", Key.str "x"].Nodup
    decide
  · rw [labelled_iff]
    simp [loneNodes, shopNodes, fileEntry, classEntry, standsUnderId, member?, members, get?]

lemma ownable_loneGraph (name : String) : Ownable (loneGraph name) loneEdges :=
  .of_keyed rfl (by decide)

lemma exists_owners_loneGraph (name : String) : ∃ owners, ownersOf (loneGraph name) = .ok owners ∧
      owners.get? (.str "a.py::Shop") = some (.str "a.py") ∧ owners.get? (.str "x") = none :=
  ⟨_, rfl, rfl, rfl⟩

lemma isSameText_renamed : isSameText (classEntry "x" "X").2 (classEntry "x" "Y").2 = false := by
  have hsorted (name : String) : (classEntry "x" name).2.sorted = .obj [("id", "x"),
      ("name", .str name), ("node_type", "Class")] := by
    simp [classEntry, sorted, sortedMembers, List.mergeSort]
  rw [isSameText, hsorted, hsorted]
  decide

lemma isOverlooked_renamed (howners : ownersOf (loneGraph "X") = .ok owners) :
    isOverlooked owners (loneNodes "X") (loneNodes "Y") (.str "x") = true := by
  obtain ⟨owners', howners', -, hnone⟩ := exists_owners_loneGraph "X"
  cases howners.symm.trans howners'
  have hnow : (loneNodes "X").get? (.str "x") = some (classEntry "x" "X").2 := rfl
  have hold : (loneNodes "Y").get? (.str "x") = some (classEntry "x" "Y").2 := rfl
  simp [isOverlooked, hnow, hold, hnone, isSameText_renamed]

theorem report_classifies_loneGraph :
    ∃ r, report (loneGraph "X") (loneGraph "Y") = .ok (Report.document r) ∧
      .str "a.py::Shop" ∈ r.nodes.keys ∧ .str "x" ∉ r.nodes.keys := by
  obtain ⟨owners, r, howners, hr, -, hkeys, -⟩ :=
    report_classifies (tabled_loneGraph "X") (ownable_loneGraph "X")
      (.present (tabled_loneGraph "Y") (ownable_loneGraph "Y"))
  refine ⟨r, hr, ?_, ?_⟩
  · obtain ⟨owners', howners', hshop, -⟩ := exists_owners_loneGraph "X"
    obtain rfl := Except.ok.inj (howners.symm.trans howners')
    rw [hkeys, isOverlooked, hshop]
    exact ⟨by decide, rfl⟩
  · rw [hkeys, isOverlooked_renamed howners]
    simp

/-- A class of both graphs has changed its name, and the report does not speak of it. -/
theorem renamed_class_without_status :
    ∃ doc, report (loneGraph "X") (loneGraph "Y") = .ok doc ∧ statusIn doc "x" = none := by
  obtain ⟨owners, r, howners, hholds, hr, hcovers⟩ :=
    exists_report (tabled_loneGraph "X") (ownable_loneGraph "X")
      (.present (tabled_loneGraph "Y") (ownable_loneGraph "Y"))
  have htexts (name : String) : TextKeys (loneNodes name) := by
    intro k hk
    have hkeys : k = .str "a.py" ∨ k = .str "a.py::Shop" ∨ k = .str "x" := by
      simpa [loneNodes, Enrichment.shopNodes, Enrichment.fileEntry, Enrichment.classEntry,
        Table.keys] using hk
    rcases hkeys with rfl | rfl | rfl
    · exact ⟨_, rfl⟩
    · exact ⟨_, rfl⟩
    · exact ⟨_, rfl⟩
  refine ⟨r.document, hr, ?_⟩
  rw [hcovers.statusIn_document (tabled_loneGraph "X").identified (tabled_loneGraph "Y").identified
    (htexts "X") (htexts "Y"), hcovers.get?,
    (statusOf_eq_none_iff hholds _).2 (isOverlooked_renamed howners)]
  simp

end CodeAtlas.Graph.Diff
