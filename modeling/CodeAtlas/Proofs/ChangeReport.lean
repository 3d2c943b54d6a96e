import CodeAtlas.Proofs.Planning

/-!
# What the report on changes says

The report calls a node unchanged just if it is in both graphs and the file that owns it now has the
same hash in both. The node itself is not looked at.
-/

namespace CodeAtlas.Graph.Diff

open Fallible List Table Json

variable {k : Key} {ids : List Json} {old nodes : Table Key Json}
variable {before now r : Json}

def isFile (n : Json) : Bool := ((n.member? "node_type").getD .null).same (.str "File")

def hashOf (n : Json) : Json :=
  ((n.member? "file_hash").getD .null).orElse ((n.member? "hash").getD .null)

/-- The hash of the file under a key, if there is a file. -/
def fileHash? (nodes : Table Key Json) (k : Key) : Option Json :=
  ((nodes.get? k).filter isFile).map hashOf

/-- The file that owns a node now has a hash in both graphs, and the same one. -/
def FileKept (owners now before : Table Key Json) (k : Key) : Prop :=
  ∃ file f hash old, owners.get? k = some file ∧ file.truthy = true ∧ file.key? = some f ∧
    fileHash? now f = some hash ∧ fileHash? before f = some old ∧
    hash ≠ .null ∧ old ≠ .null ∧ hash.same old = true

lemma isFileNode_eq_ok {n : Json} (hn : n.IsObject) : isFileNode n = .ok (isFile n) := by
  rw [isFileNode, get_eq_ok.2 ⟨hn, rfl⟩]
  rfl

lemma fileHash?_concat {met : Table Key Json} {key : Key} (hkey : key ∉ met.keys) (n : Json)
    (k : Key) : fileHash? (met ++ [(key, n)]) k =
      if k = key then (if isFile n = true then some (hashOf n) else none) else fileHash? met k := by
  rw [fileHash?, fileHash?, get?_append, get?_cons]
  by_cases hk : k = key
  · subst hk
    rw [get?_eq_none_iff.2 hkey]
    by_cases hfile : isFile n = true <;> simp [hfile, Option.filter]
  · simp [hk, Ne.symm hk]

lemma get?_fileHashes {hashes : Table Key Json} (hdistinct : nodes.keys.Nodup)
    (hidentified : Identified nodes) (h : fileHashes nodes.values = .ok hashes) (k : Key) :
    hashes.get? k = fileHash? nodes k := by
  rw [fileHashes, Table.values, foldlM_map] at h
  refine foldlM_invariant (fun (met : Table Key Json) (hashes : Table Key Json) ↦
    met.keys.Nodup → Identified met → ∀ k, hashes.get? k = fileHash? met k) ?_ ?_ h
    hdistinct hidentified k
  · rintro met hashes ⟨key, n⟩ hashes' hmet hn hdistinct hidentified k
    obtain ⟨id, hid, hkey⟩ := hidentified key n (by simp)
    have hobj := isObject_of_member? hid
    rw [Table.keys_append, nodup_append] at hdistinct
    have hnew : key ∉ Table.keys met :=
      fun hmem ↦ hdistinct.2.2 _ hmem _ mem_cons_self rfl
    have hold := hmet hdistinct.1 fun k m hm ↦ hidentified k m (mem_append_left _ hm)
    have hgone : fileHash? met key = none := by
      rw [fileHash?, get?_eq_none_iff.2 hnew]
      rfl
    have hhashes : hashes' = if isFile n = true then hashes.put key (hashOf n) else hashes := by
      simp only [isFileNode_eq_ok hobj, need_eq_ok.2 hid, key_eq_ok.2 hkey,
        get_eq_ok.2 ⟨hobj, rfl⟩, bind, Except.bind] at hn
      split at hn
      next hfile => rw [if_pos hfile, ← pure_eq_ok.1 hn, hashOf]
      next hfile => rw [if_neg hfile, ← pure_eq_ok.1 hn]
    rw [hhashes, fileHash?_concat hnew]
    by_cases hfile : isFile n = true
    · rw [if_pos hfile, if_pos hfile, get?_put, hold]
    · rw [if_neg hfile, if_neg hfile, hold]
      split
      next hk => rw [hk, hgone]
      next => rfl
  · intro _ _ k
    rfl

lemma mem_unionKeys {β γ : Type} {t : Table Key β} {u : Table Key γ} :
    k ∈ unionKeys t u ↔ k ∈ t.keys ∨ k ∈ u.keys := by
  rw [unionKeys, mem_append, mem_filter]
  by_cases hk : k ∈ t.keys
  · simp [hk]
  · have hcontains : t.contains k = false :=
      Bool.eq_false_iff.2 fun hc ↦ hk (contains_iff.1 hc)
    simp [hk, hcontains]

lemma fileStatus_eq_unchanged {now before : Option Json} :
    fileStatus now before = .unchanged ↔ ∃ hash old, now = some hash ∧ before = some old ∧
      hash ≠ .null ∧ old ≠ .null ∧ hash.same old = true := by
  cases now with
  | none => simp [fileStatus]
  | some hash =>
    cases before with
    | none => simp [fileStatus]
    | some old =>
      rw [fileStatus]
      split
      next hnull =>
        simp only [reduceCtorEq, false_iff]
        rintro ⟨_, _, hhash, hold, hhash', hold', -⟩
        cases hhash
        cases hold
        exact hnull.elim hhash' hold'
      next hnull =>
        rw [not_or] at hnull
        split
        next hsame => simpa using ⟨hnull.1, hnull.2, hsame⟩
        next hsame => simp [hsame]

lemma get?_fileStatuses (now before : Table Key Json) (k : Key) : (fileStatuses now before).get? k =
      if k ∈ unionKeys now before then some (fileStatus (now.get? k) (before.get? k))
        else none := by
  have hget (ks : List Key) (f : Key → Status) :
      Table.get? (ks.map fun k ↦ (k, f k)) k = if k ∈ ks then some (f k) else none := by
    induction ks with
    | nil => rfl
    | cons k' rest ih =>
      rw [map_cons, get?_cons, ih]
      by_cases hk : k' = k
      · simp [hk]
      · simp [hk, Ne.symm hk]
  exact hget _ _

lemma get?_fileStatuses_eq_unchanged {now before : Table Key Json} :
    (fileStatuses now before).get? k = some .unchanged ↔ ∃ hash old, now.get? k = some hash ∧
      before.get? k = some old ∧ hash ≠ .null ∧ old ≠ .null ∧ hash.same old = true := by
  rw [← fileStatus_eq_unchanged, get?_fileStatuses]
  split
  next => rw [Option.some.injEq]
  next hk =>
    rw [mem_unionKeys, not_or] at hk
    simp [get?_eq_none_iff.2 hk.1, fileStatus]

lemma ownerStatus_eq_unchanged {owners : Table Key Json} {files : Table Key Status} :
    ownerStatus owners files k = .ok (some .unchanged) ↔ ∃ file f, owners.get? k = some file ∧
      file.truthy = true ∧ file.key? = some f ∧ files.get? f = some .unchanged := by
  rw [ownerStatus]
  cases owners.get? k with
  | none => simp [pure, Except.pure]
  | some file =>
    by_cases htruthy : file.truthy = true
    · simp only [htruthy, if_true, bind_eq_ok, pure_eq_ok, key_eq_ok, Option.some.injEq]
      constructor
      · rintro ⟨f, hf, hstatus⟩
        exact ⟨file, f, rfl, htruthy, hf, hstatus⟩
      · rintro ⟨_, f, rfl, _, hf, hstatus⟩
        exact ⟨f, hf, hstatus⟩
    · simp only [htruthy, Option.some.injEq]
      constructor
      · intro h
        exact absurd (pure_eq_ok.1 h) (by simp)
      · rintro ⟨_, f, rfl, htruthy', _⟩
        exact absurd htruthy' htruthy

lemma nodeStatus_eq_unchanged {now before : Option Json} {file : Option Status} :
    nodeStatus now before file = some .unchanged ↔
      now.isSome = true ∧ before.isSome = true ∧ file = some .unchanged := by
  cases now with
  | none => simp [nodeStatus]
  | some n =>
    cases before with
    | none => simp [nodeStatus]
    | some b =>
      cases file with
      | none => simp [nodeStatus]
      | some status => cases status <;> simp [nodeStatus]

/-- What noting the name of one more id does. -/
def noteName (names : Table Key String) (id : Json) : Table Key String :=
  match id.key? with
  | some k => if names.contains k then names else names.put k id.memberName
  | none => names

/-- The texts among the keys of a table of names are named by themselves. -/
def NamesTexts (names : Table Key String) : Prop := ∀ s v, names.get? (.str s) = some v → v = s

lemma noteName_str {names : Table Key String} (hnames : NamesTexts names) (s : String) :
    NamesTexts (noteName names s) ∧ ∀ k, k ∈ (noteName names s).keys ↔
    k = .str s ∨ k ∈ names.keys := by
  have hnote : noteName names s =
      if names.contains (.str s) = true then names else names.put (.str s) s := rfl
  rw [hnote]
  split
  next hthere =>
    refine ⟨hnames, fun k ↦ ⟨.inr, ?_⟩⟩
    rintro (rfl | hk)
    · exact contains_iff.1 hthere
    · exact hk
  next =>
    refine ⟨fun s' v hv ↦ ?_, fun k ↦ mem_keys_put⟩
    rw [get?_put] at hv
    split at hv
    next heq =>
      cases heq
      exact (Option.some.inj hv).symm
    next => exact hnames s' v hv

lemma get?_memberNames (htexts : ∀ v ∈ ids, ∃ id, v = .str id) {id : String} (hid : .str id ∈ ids) :
    (memberNames ids).get? (.str id) = some id := by
  -- The induction is on the ids still to come: all that have been met are keys already.
  have hgeneral : ∀ (ids : List Json) (names : Table Key String),
      (∀ v ∈ ids, ∃ id, v = .str id) → NamesTexts names →
      (.str id ∈ ids ∨ Key.str id ∈ names.keys) →
      Table.get? (ids.foldl noteName names) (.str id) = some id := by
    intro ids
    induction ids with
    | nil =>
      intro names _ hnames hmem
      obtain ⟨v, hv⟩ := exists_of_mem_keys (hmem.resolve_left (by simp))
      rw [foldl_nil, hv, hnames id v hv]
    | cons v rest ih =>
      intro names htexts hnames hmem
      obtain ⟨s, rfl⟩ := htexts v mem_cons_self
      obtain ⟨hnames', hkeys⟩ := noteName_str hnames s
      refine ih _ (fun v hv ↦ htexts v (mem_cons_of_mem _ hv)) hnames' ?_
      rw [hkeys]
      rcases hmem with hmem | hmem
      · rcases mem_cons.1 hmem with heq | hmem
        · exact .inr (.inl (congrArg Key.str (str.inj heq)))
        · exact .inl hmem
      · exact .inr (.inr hmem)
  exact hgeneral ids [] htexts (by simp [NamesTexts]) (.inl hid)

lemma member?_statusMembers (htexts : ∀ v ∈ ids, ∃ id, v = .str id) {t : Table Key Status}
    (hkeys : ∀ k ∈ t.keys, ∃ id, k = .str id ∧ .str id ∈ ids) (id : String) :
    (statusMembers ids t).member? id = (t.get? (.str id)).map fun s ↦ .str s.name := by
  rw [statusMembers, ofKeys, member?_obj, map_map]
  induction t with
  | nil => rfl
  | cons e rest ih =>
    obtain ⟨k, s⟩ := e
    obtain ⟨id', rfl, hid'⟩ := hkeys k mem_cons_self
    have hrest := ih fun k hk ↦ hkeys k (mem_cons_of_mem _ hk)
    rw [map_cons, get?_cons, get?_cons, hrest]
    simp only [Function.comp_apply, get?_memberNames htexts hid', Option.getD_some, Key.str.injEq]
    split <;> rfl

lemma map_member?_of_mapM_need {ns : List Json} {name : String}
    (h : ns.mapM (·.need name) = .ok ids) : ns.map (·.member? name) = ids.map some := by
  have hforall := mapM_eq_ok.1 h
  clear h
  induction hforall with
  | nil => rfl
  | cons hneed _ ih => rw [map_cons, map_cons, ih, need_eq_ok.1 hneed]

lemma exists_texts_of_idsOf (hlabelled : Labelled nodes) {files : List Json}
    (h : idsOf nodes.values = .ok (ids, files)) :
    ∃ texts : List String, nodes.keys = texts.map Key.str ∧ ids = texts.map str := by
  simp only [idsOf, bind_eq_ok, pure_eq_ok] at h
  obtain ⟨ids', hids, files', -, heq⟩ := h
  cases heq
  obtain ⟨texts, hkeys, hmembers⟩ := hlabelled.exists_texts
  have hsome : ids.map some = (texts.map str).map some := by
    rw [← map_member?_of_mapM_need hids, hmembers, map_map]
    rfl
  exact ⟨texts, hkeys, map_injective_iff.2 (Option.some_injective _) hsome⟩

lemma mem_nodes_of_between {r : Report} (hnow : Listed now nodes)
    (hbefore : Listed before old) (h : between now before = .ok r) :
    ∃ owners files, ownersOf now = .ok owners ∧
      (∀ k, files.get? k = some .unchanged ↔ ∃ hash before, fileHash? nodes k = some hash ∧
        fileHash? old k = some before ∧ hash ≠ .null ∧ before ≠ .null ∧ hash.same before = true) ∧
      (∀ k s, (k, s) ∈ r.nodes ↔ k ∈ unionKeys nodes old ∧
        ∃ file, ownerStatus owners files k = .ok file ∧
        nodeStatus (nodes.get? k) (old.get? k) file = some s) ∧
        (∀ v ∈ r.nodeIds, ∃ id, v = .str id) ∧
      ∀ k ∈ unionKeys nodes old, ∃ id, k = .str id ∧ .str id ∈ r.nodeIds := by
  simp only [between, hnow.nodes, hbefore.nodes, bind_eq_ok, pure_eq_ok, Except.ok.injEq,
    exists_eq_left', nodesById_values hnow.distinct hnow.labelled.identified,
    nodesById_values hbefore.distinct hbefore.labelled.identified] at h
  obtain ⟨nowHashes, hnowHashes, beforeHashes, hbeforeHashes, owners, howners, -, -, statuses,
    hstatuses, ⟨nowIds, nowFileIds⟩, hnowIds, ⟨beforeIds, beforeFileIds⟩, hbeforeIds, rfl⟩ := h
  obtain ⟨nowTexts, hnowKeys, rfl⟩ := exists_texts_of_idsOf hnow.labelled hnowIds
  obtain ⟨beforeTexts, hbeforeKeys, rfl⟩ := exists_texts_of_idsOf hbefore.labelled hbeforeIds
  refine ⟨owners, fileStatuses nowHashes beforeHashes, howners, fun k ↦ ?_, fun k s ↦ ?_,
    ?_, fun k hk ↦ ?_⟩
  · rw [get?_fileStatuses_eq_unchanged, get?_fileHashes hnow.distinct hnow.labelled.identified
      hnowHashes, get?_fileHashes hbefore.distinct hbefore.labelled.identified hbeforeHashes]
  · simp only [mem_filterMapM hstatuses, bind_eq_ok, pure_eq_ok]
    constructor
    · rintro ⟨k', hk', file, hfile, hs⟩
      obtain ⟨s', hs', heq⟩ := Option.map_eq_some_iff.1 hs
      cases heq
      exact ⟨hk', file, hfile, hs'⟩
    · rintro ⟨hk, file, hfile, hs⟩
      exact ⟨k, hk, file, hfile, by rw [hs]; rfl⟩
  · simp only [mem_append, mem_map]
    rintro v (⟨id, -, rfl⟩ | ⟨id, -, rfl⟩) <;> exact ⟨id, rfl⟩
  · rw [mem_unionKeys, hnowKeys, hbeforeKeys, mem_map, mem_map] at hk
    simp only [mem_append, mem_map]
    rcases hk with ⟨id, hid, rfl⟩ | ⟨id, hid, rfl⟩
    · exact ⟨id, rfl, .inl ⟨id, hid, rfl⟩⟩
    · exact ⟨id, rfl, .inr ⟨id, hid, rfl⟩⟩

open Enrichment in
lemma saysUnchanged_str {statuses : Json} (hr : r.member? "node_status" = some statuses)
    (hobj : statuses.IsObject) (id : String) : saysUnchanged r (.str id) =
      ((statuses.member? id).getD "MODIFIED").same "UNCHANGED" := by
  have hstatuses : r.getD "node_status" (.obj []) = .ok statuses :=
    getD_eq_ok.2 ⟨isObject_of_member? hr, by rw [hr]; rfl⟩
  have hstatus : statuses.getD id "MODIFIED" =
      .ok ((statuses.member? id).getD "MODIFIED") := getD_eq_ok.2 ⟨hobj, rfl⟩
  simp only [saysUnchanged, reported, hstatuses, hstatus, bind, Except.bind]

open Enrichment in
/-- A report calls a node unchanged just if both graphs have it and the file that owns it now has
the same hash in both. -/
lemma saysUnchanged_report (hnow : Listed now nodes) (hbefore : Listed before old)
    (h : report now before = .ok r) :
    ∃ owners, ownersOf now = .ok owners ∧ ∀ id, saysUnchanged r (.str id) = true ↔
      .str id ∈ nodes.keys ∧ .str id ∈ old.keys ∧ FileKept owners nodes old (.str id) := by
  rw [report, if_pos hbefore.truthy] at h
  simp only [bind_eq_ok, pure_eq_ok] at h
  obtain ⟨r, hr, rfl⟩ := h
  obtain ⟨owners, files, howners, hfiles, hnodes, htexts, hkeys⟩ :=
    mem_nodes_of_between hnow hbefore hr
  refine ⟨owners, howners, fun id ↦ ?_⟩
  have hmember : (statusMembers r.nodeIds r.nodes).member? id =
      (r.nodes.get? (.str id)).map fun s ↦ .str s.name := by
    refine member?_statusMembers htexts (fun k hk ↦ ?_) id
    obtain ⟨s, hs⟩ := exists_of_mem_keys hk
    exact hkeys k ((hnodes k s).1 (mem_of_get? hs)).1
  have htold : saysUnchanged r.document (.str id) = true ↔
      r.nodes.get? (.str id) = some .unchanged := by
    have hwritten : r.document.member? "node_status" = some (statusMembers r.nodeIds r.nodes) := rfl
    rw [saysUnchanged_str hwritten ⟨_, rfl⟩, hmember]
    cases r.nodes.get? (.str id) with
    | none => simp [same]
    | some s => cases s <;> simp [same, Status.name]
  have hone (s s' : Status) (hs : (.str id, s) ∈ r.nodes) (hs' : (.str id, s') ∈ r.nodes) :
      s = s' := by
    obtain ⟨-, file, hfile, hs⟩ := (hnodes _ s).1 hs
    obtain ⟨-, file', hfile', hs'⟩ := (hnodes _ s').1 hs'
    obtain rfl := Except.ok.inj (hfile.symm.trans hfile')
    exact Option.some.inj (hs.symm.trans hs')
  rw [htold, get?_eq_some_iff_mem hone, hnodes, mem_unionKeys]
  constructor
  · rintro ⟨-, file, hfile, hstatus⟩
    obtain ⟨hnow, hold, rfl⟩ := nodeStatus_eq_unchanged.1 hstatus
    obtain ⟨owner, f, howner, htruthy, hf, hkept⟩ := ownerStatus_eq_unchanged.1 hfile
    obtain ⟨hash, old, hhash, hold', hne, hne', hsame⟩ := (hfiles f).1 hkept
    exact ⟨mem_keys_iff.2 hnow, mem_keys_iff.2 hold, owner, f, hash, old, howner, htruthy,
      hf, hhash, hold', hne, hne', hsame⟩
  · rintro ⟨hnow, hold, owner, f, hash, old, howner, htruthy, hf, hhash, hold', hne, hne', hsame⟩
    refine ⟨.inl hnow, some .unchanged, ?_, ?_⟩
    · exact ownerStatus_eq_unchanged.2 ⟨owner, f, howner, htruthy, hf,
        (hfiles f).2 ⟨hash, old, hhash, hold', hne, hne', hsame⟩⟩
    · exact nodeStatus_eq_unchanged.2 ⟨mem_keys_iff.1 hnow, mem_keys_iff.1 hold, rfl⟩

lemma truthy_report (h : report now before = .ok r) : r.truthy = true := by
  rw [report] at h
  split at h
  · obtain ⟨found, -, h⟩ := bind_eq_ok.1 h
    rw [← pure_eq_ok.1 h]
    rfl
  · simp only [first, bind_eq_ok, pure_eq_ok] at h
    obtain ⟨-, -, found, -, ⟨ids, files⟩, -, rfl⟩ := h
    rfl

lemma fileHash?_congr {nodes' : Table Key Json}
    (h : (nodes.get? k).map structureOf = (nodes'.get? k).map structureOf) :
    fileHash? nodes k = fileHash? nodes' k := by
  have htold (o : Option Json) : (o.filter isFile).map hashOf =
      (o.map fun n ↦ if isFile n = true then some (hashOf n) else none).join := by
    cases o with
    | none => rfl
    | some n => cases hfile : isFile n <;> simp [hfile, Option.filter]
  rw [fileHash?, fileHash?, htold, htold]
  refine congrArg Option.join (map_congr_of_structureOf _ h fun n n' hn ↦ ?_)
  have hmember (name : String) (hname : name ≠ "semantic_roles") :=
    member?_of_structureOf_eq hn hname
  rw [isFile, isFile, hashOf, hashOf, hmember "node_type" (by decide),
    hmember "file_hash" (by decide), hmember "hash" (by decide)]

end CodeAtlas.Graph.Diff
