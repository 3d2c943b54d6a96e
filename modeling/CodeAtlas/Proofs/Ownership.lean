import CodeAtlas.Proofs.ChangeReport
import CodeAtlas.Proofs.Walks

/-!
# The owners of nodes

A file owns itself, and a walk by levels hands the owner of a node on to all that the node owns and
that has no owner yet. The nodes that wait in the queue are in the order of their distance from the
files, and no two of them are more than one step apart. Consequently what gets an owner gets the
nearest file: the owners are the files from which shortest chains of ownership edges lead to what
they own, and whatever a chain leads to has an owner.
-/

namespace CodeAtlas.Graph

open Fallible List Json Table

variable {v child : Json} {owned : Table Key (List Json)}
variable {edges files nodes : List Json} {g : Json}

/-- An ownership edge leads from a key to a child. -/
def HasChild (edges : List Json) (a : Key) (child : Json) : Prop :=
  ∃ e ∈ edges, ∃ kind ∈ ownershipEdges, ∃ source, e.member? "type" = some (.str kind) ∧
    e.member? "source" = some source ∧ source.key? = some a ∧ e.member? "target" = some child

/-- An ownership edge leads from one key to another. -/
def Owns (edges : List Json) (a b : Key) : Prop :=
  ∃ child, HasChild edges a child ∧ child.key? = some b

/-- The edges of a graph. The kinds of all of them can serve as keys, and so can both ends of
ownership edges. -/
structure Ownable (g : Json) (edges : List Json) : Prop where
  found : edgesOf g = .ok edges
  kinds : ∀ e ∈ edges, hasKey e "type"
  ends : ∀ e ∈ edges, ∀ kind ∈ ownershipEdges, e.member? "type" = some (.str kind) →
    hasKey e "source" ∧ hasKey e "target"

namespace Ownable

variable {edges : List Json}

lemma of_keyed (hfound : edgesOf g = .ok edges)
    (hkeyed : ∀ e ∈ edges, hasKey e "type" ∧ hasKey e "source" ∧ hasKey e "target") :
    Ownable g edges :=
  ⟨hfound, fun e he ↦ (hkeyed e he).1, fun e he _ _ _ ↦ (hkeyed e he).2⟩

lemma exists_key (h : Ownable g edges) {a : Key} (hchild : HasChild edges a child) :
    ∃ b, child.key? = some b := by
  obtain ⟨e, he, kind, hkind, -, htype, -, -, htarget⟩ := hchild
  obtain ⟨target, b, htarget', hb⟩ := exists_of_hasKey (h.ends e he kind hkind htype).2
  cases htarget.symm.trans htarget'
  exact ⟨b, hb⟩

end Ownable

lemma hasChild_concat {e : Json} {a : Key} :
    HasChild (edges ++ [e]) a child ↔ HasChild edges a child ∨ HasChild [e] a child := by
  simp only [HasChild, mem_append, or_and_right, exists_or]

/-- The lists of what each thing owns hold what ownership edges lead to. -/
lemma mem_ownedBy (h : ownedBy edges = .ok owned) (a : Key) (child : Json) :
    child ∈ (owned.get? a).getD [] ↔ HasChild edges a child := by
  refine foldlM_invariant (fun met (owned : Table Key (List Json)) ↦ ∀ a child,
    child ∈ (owned.get? a).getD [] ↔ HasChild met a child) ?_ (by simp [HasChild]) h a child
  intro met owned e owned' hmet hstep a child
  simp only [bind_eq_ok, need_eq_ok, key_eq_ok] at hstep
  obtain ⟨type, htype, kind, hkind, hstep⟩ := hstep
  rw [hasChild_concat, ← hmet]
  have hother (hnone : ∀ t ∈ ownershipEdges, kind ≠ .str t) : ¬HasChild [e] a child := by
    rintro ⟨_, he, t, ht, -, htype', -⟩
    obtain rfl := mem_singleton.1 he
    cases htype.symm.trans htype'
    exact hnone t ht (Option.some.inj hkind).symm
  cases kind with
  | str t =>
    obtain rfl := key?_eq_str.1 hkind
    change (if ownershipEdges.contains t = true then _ else _) = _ at hstep
    split at hstep
    next howns =>
      simp only [bind_eq_ok, pure_eq_ok, need_eq_ok, key_eq_ok] at hstep
      obtain ⟨source, hsource, k, hk, target, htarget, rfl⟩ := hstep
      have honly : HasChild [e] a child ↔ a = k ∧ child = target := by
        simp only [HasChild, mem_singleton, exists_eq_left, htype, hsource, htarget,
          Option.some.injEq, str.injEq]
        constructor
        · rintro ⟨_, -, _, -, rfl, ha, rfl⟩
          exact ⟨Option.some.inj (ha.symm.trans hk), rfl⟩
        · rintro ⟨rfl, rfl⟩
          exact ⟨t, contains_iff_mem.1 howns, source, rfl, rfl, hk, rfl⟩
      rw [get?_push, honly]
      split
      next ha => simp [ha]
      next ha => simp [ha]
    next howns =>
      obtain rfl := pure_eq_ok.1 hstep
      have hnone := hother fun t' ht' heq ↦ howns (contains_iff_mem.2 (Key.str.inj heq ▸ ht'))
      rw [or_iff_left hnone]
  | _ =>
    obtain rfl := pure_eq_ok.1 hstep
    rw [or_iff_left (hother fun _ _ heq ↦ by cases heq)]

lemma Ownable.exists_ownedBy (h : Ownable g edges) : ∃ owned, ownedBy edges = .ok owned := by
  refine foldlM_succeeds (fun owned e he ↦ ?_) []
  obtain ⟨type, kind, htype, hkind⟩ := exists_of_hasKey (h.kinds e he)
  rw [need_eq_ok.2 htype]
  simp only [key_eq_ok.2 hkind, bind, Except.bind]
  cases kind with
  | str t =>
    simp only [pure, Except.pure]
    split
    next howns =>
      obtain rfl := key?_eq_str.1 hkind
      obtain ⟨hasSource, hasTarget⟩ := h.ends e he t (contains_iff_mem.1 howns) htype
      obtain ⟨source, k, hsource, hk⟩ := exists_of_hasKey hasSource
      obtain ⟨target, -, htarget, -⟩ := exists_of_hasKey hasTarget
      simp only [need_eq_ok.2 hsource, key_eq_ok.2 hk, need_eq_ok.2 htarget]
      exact ⟨_, rfl⟩
    · exact ⟨_, rfl⟩
  | _ => exact ⟨_, rfl⟩

/-- Claiming children gives the owner to those that lack one, each once. -/
lemma claimChildren_spec (owner : Json) {children : List Json}
    (hkeyed : ∀ v ∈ children, ∃ k, v.key? = some k) (owners : Table Key Json) :
    ∃ (claimed : List Json) (new : List Key), claimChildren owner children owners =
        .ok (owners ++ new.map fun k ↦ (k, owner), claimed) ∧
      claimed.map key? = new.map some ∧ new.Nodup ∧
      ∀ k, k ∈ new ↔ k ∉ owners.keys ∧ ∃ v ∈ children, v.key? = some k := by
  induction children generalizing owners with
  | nil => exact ⟨[], [], by rw [claimChildren, map_nil, append_nil], rfl, .nil, by simp⟩
  | cons child rest ih =>
    obtain ⟨⟨k, hk⟩, hrest⟩ := forall_mem_cons.1 hkeyed
    rw [claimChildren, key_eq_ok.2 hk]
    by_cases hthere : k ∈ owners.keys
    · obtain ⟨claimed, new, hrun, hkeys, hnew, hmem⟩ := ih hrest owners
      simp only [Table.contains_iff.2 hthere, if_true, bind, Except.bind]
      refine ⟨claimed, new, hrun, hkeys, hnew, fun k' ↦ ?_⟩
      have hne (hk' : k' ∉ owners.keys) : k ≠ k' := fun heq ↦ hk' (heq ▸ hthere)
      rw [hmem, exists_mem_cons_iff, hk, Option.some.injEq]
      exact and_congr_right fun hk' ↦ by simp [hne hk']
    · obtain ⟨claimed, new, hrun, hkeys, hnew, hmem⟩ := ih hrest (owners ++ [(k, owner)])
      have hfree : owners.contains k = false := Bool.eq_false_iff.2 (mt contains_iff.1 hthere)
      refine ⟨child :: claimed, k :: new, ?_, by simp [hk, hkeys], ?_, fun k' ↦ ?_⟩
      · simp only [hfree, put_of_notMem hthere, hrun, bind, Except.bind]
        simp [pure, Except.pure]
      · exact nodup_cons.2 ⟨fun hold ↦ ((hmem k).1 hold).1 (by simp [Table.keys]), hnew⟩
      · rw [mem_cons, hmem, Table.keys_append, mem_append, exists_mem_cons_iff, hk]
        by_cases heq : k' = k
        · simp [heq, hthere]
        · simp [heq, Ne.symm heq, Table.keys]

/-- A value is one of some files, and serves as a key. -/
def NamesFile (files : List Json) (f : Key) (v : Json) : Prop := v ∈ files ∧ v.key? = some f

def IsStart (files : List Json) (f : Key) : Prop := ∃ v, NamesFile files f v

/-- Owners are being handed on by levels to what some files lead to. -/
structure Spreading (leads : Key → Key → Prop) (files : List Json) (queue : List Key)
    (owners : Table Key Json) : Prop where
  /-- Every owner is a file, and no file is nearer. -/
  nearest : ∀ k v, owners.get? k = some v → ∃ f n, NamesFile files f v ∧
    Nearest leads (IsStart files) f n k
  started : ∀ f v, NamesFile files f v → f ∈ owners.keys
  queued : ∀ k ∈ queue, k ∈ owners.keys
  /-- What has left the queue has handed its owner on. -/
  followed : ∀ k ∈ owners.keys, k ∉ queue → ∀ b, leads k b → b ∈ owners.keys
  sorted : queue.Pairwise fun a b ↦ distance leads (IsStart files) a ≤
    distance leads (IsStart files) b
  narrow : ∀ a ∈ queue, ∀ b ∈ queue, distance leads (IsStart files) b ≤
    distance leads (IsStart files) a + 1

namespace Spreading

variable {leads : Key → Key → Prop} {queue : List Key}
  {owners : Table Key Json}

/-- A walk to what has no owner yet passes something that waits. -/
lemma exists_waiting (h : Spreading leads files queue owners) {f b : Key} {n : Nat}
    (hf : NamesFile files f v) (walk : Walk leads f n b) (hb : b ∉ owners.keys) :
    ∃ q ∈ queue, ∃ m, m < n ∧ Walk leads f m q := by
  induction walk with
  | here => exact absurd (h.started f v hf) hb
  | @next n a b walk step ih =>
    by_cases ha : a ∈ owners.keys
    · by_contra hnone
      refine hb (h.followed a ha (fun hwaits ↦ hnone ⟨a, hwaits, n, by omega, walk⟩) b step)
    · obtain ⟨q, hq, m, hm, walk'⟩ := ih ha
      exact ⟨q, hq, m, by omega, walk'⟩

/-- So the first in the queue is as near as can be to what it hands its owner to. -/
lemma nearest_next {k : Key} (h : Spreading leads files (k :: queue) owners) {f b : Key} {n : Nat}
    (hf : Nearest leads (IsStart files) f n k) (hkb : leads k b) (hb : b ∉ owners.keys) :
    Nearest leads (IsStart files) f (n + 1) b := by
  refine ⟨hf.start, hf.walk.next hkb, ?_⟩
  rintro f' m ⟨v, hv⟩ walk
  obtain ⟨q, hq, m', hm, walk'⟩ := h.exists_waiting hv walk hb
  have hle : n ≤ distance leads (IsStart files) q := by
    rw [← hf.distance_eq]
    rcases mem_cons.1 hq with rfl | hq
    · exact le_rfl
    · exact (pairwise_cons.1 h.sorted).1 q hq
  have hle' : distance leads (IsStart files) q ≤ m' := distance_le ⟨v, hv⟩ walk'
  omega

/-- One step: the first in the queue hands its owner on to all that it leads to and that has none.
-/
lemma step {k : Key} (h : Spreading leads files (k :: queue) owners) (hv : owners.get? k = some v)
    {new : List Key} (hnew : ∀ b, b ∈ new ↔ b ∉ owners.keys ∧ leads k b) :
    Spreading leads files (queue ++ new) (owners ++ new.map fun b ↦ (b, v)) := by
  obtain ⟨f, n, hf, hnear⟩ := h.nearest k v hv
  have hnext (b : Key) (hb : b ∈ new) : Nearest leads (IsStart files) f (n + 1) b :=
    h.nearest_next hnear ((hnew b).1 hb).2 ((hnew b).1 hb).1
  have hkeys (b : Key) : b ∈ keys (owners ++ new.map fun b ↦ (b, v)) ↔
      b ∈ owners.keys ∨ b ∈ new := by
    simp [Table.keys]
  have hahead (a : Key) (ha : a ∈ queue) : n ≤ distance leads (IsStart files) a ∧
      distance leads (IsStart files) a ≤ n + 1 := by
    rw [← hnear.distance_eq]
    exact ⟨(pairwise_cons.1 h.sorted).1 a ha, h.narrow k (by simp) a (by simp [ha])⟩
  have hlevel (a : Key) (ha : a ∈ queue ++ new) : n ≤ distance leads (IsStart files) a ∧
      distance leads (IsStart files) a ≤ n + 1 := by
    rcases mem_append.1 ha with ha | ha
    · exact hahead a ha
    · rw [(hnext a ha).distance_eq]
      omega
  refine ⟨fun b w hw ↦ ?_, fun f' v' hf' ↦ (hkeys f').2 (.inl (h.started f' v' hf')), fun b hb ↦ ?_,
    fun a ha hleft b hab ↦ ?_, ?_, fun a ha b hb ↦ ?_⟩
  · rw [get?_append, Option.or_eq_some_iff] at hw
    rcases hw with hw | ⟨-, hw⟩
    · exact h.nearest b w hw
    · obtain ⟨b', hb', heq⟩ := mem_map.1 (mem_of_get? hw)
      cases heq
      exact ⟨f, n + 1, hf, hnext b hb'⟩
  · rw [hkeys]
    exact (mem_append.1 hb).imp_left fun hb ↦ h.queued b (by simp [hb])
  · rw [mem_append, not_or] at hleft
    have ha := ((hkeys a).1 ha).resolve_right hleft.2
    rw [hkeys, hnew]
    by_cases hak : a = k
    · exact or_iff_not_imp_left.2 fun hb ↦ ⟨hb, hak ▸ hab⟩
    · exact .inl (h.followed a ha (by simp [hak, hleft.1]) b hab)
  · refine pairwise_append.2 ⟨(pairwise_cons.1 h.sorted).2,
      pairwise_of_forall_mem_list fun a ha b hb ↦ ?_, fun a ha b hb ↦ ?_⟩
    · rw [(hnext a ha).distance_eq, (hnext b hb).distance_eq]
    · rw [(hnext b hb).distance_eq]
      exact (hahead a ha).2
  · have hle := (hlevel a ha).1
    have hle' := (hlevel b hb).2
    omega

/-- The walk ends with an empty queue: all that files lead to is among some targets, and the steps
are as many as wait or are still to be found. -/
lemma exists_spreadOwners (hkeyed : ∀ k, ∀ v ∈ (owned.get? k).getD [], ∃ b, v.key? = some b)
    (howned : ∀ k b, leads k b ↔ ∃ v ∈ (owned.get? k).getD [], v.key? = some b)
    {targets : Finset Key} (htargets : ∀ k b, leads k b → b ∈ targets) (steps : Nat)
    (hnodes : nodes.map key? = queue.map some) (h : Spreading leads files queue owners)
    (hsteps : queue.length + (targets \ owners.keys.toFinset).card ≤ steps) :
    ∃ owners', spreadOwners owned steps nodes owners = .ok owners' ∧
      Spreading leads files [] owners' := by
  induction steps generalizing nodes queue owners with
  | zero =>
    obtain rfl : queue = [] := eq_nil_of_length_eq_zero (by omega)
    exact ⟨owners, rfl, h⟩
  | succ steps ih =>
    cases queue with
    | nil =>
      obtain rfl : nodes = [] := by simpa using hnodes
      exact ⟨owners, rfl, h⟩
    | cons k queue =>
      obtain ⟨node, rest, rfl, hk, hrest⟩ := map_eq_cons_iff.1 hnodes
      obtain ⟨v, hv⟩ := exists_of_mem_keys (h.queued k (by simp))
      obtain ⟨claimed, new, hrun, hclaimed, hdistinct, hnew⟩ :=
        claimChildren_spec v (hkeyed k) owners
      simp only [← howned] at hnew
      rw [spreadOwners, key_eq_ok.2 hk]
      simp only [hv, Option.getD_some, hrun, bind, Except.bind]
      refine ih (by simp [hrest, hclaimed]) (h.step hv hnew) ?_
      -- What has been claimed waits now, and is no longer to be found.
      have hfound : new.toFinset ⊆ targets \ owners.keys.toFinset := by
        intro b hb
        have hb := (hnew b).1 (mem_toFinset.1 hb)
        exact Finset.mem_sdiff.2 ⟨htargets k b hb.2, by simpa using hb.1⟩
      have hkeys : keys (owners ++ new.map fun b ↦ (b, v)) = owners.keys ++ new := by
        simp [Table.keys, Function.comp_def]
      have hcard := Finset.card_sdiff_add_card_eq_card hfound
      rw [toFinset_card_of_nodup hdistinct, sdiff_sdiff_left] at hcard
      rw [hkeys, toFinset_append, length_append]
      rw [length_cons] at hsteps
      change queue.length + new.length + (targets \ (owners.keys.toFinset ⊔ new.toFinset)).card ≤
        steps
      omega

lemma mem_keys_iff (h : Spreading leads files [] owners) (k : Key) :
    k ∈ owners.keys ↔ ∃ f v n, NamesFile files f v ∧ Walk leads f n k := by
  constructor
  · intro hk
    obtain ⟨v, hv⟩ := exists_of_mem_keys hk
    obtain ⟨f, n, hf, hnear⟩ := h.nearest k v hv
    exact ⟨f, v, n, hf, hnear.walk⟩
  · rintro ⟨f, v, n, hf, walk⟩
    by_contra hk
    obtain ⟨q, hq, -⟩ := h.exists_waiting hf walk hk
    cases hq

end Spreading

def filesAmong (nodes : List Json) : List Json :=
  nodes.filterMap fun n ↦ if Diff.isFile n then n.member? "id" else none

/-- The nodes of a graph. All of them are objects, and the ids of files can serve as keys. -/
structure Rooted (g : Json) (nodes : List Json) : Prop where
  found : nodesOf g = .ok nodes
  objects : ∀ n ∈ nodes, n.IsObject
  keyed : ∀ n ∈ nodes, Diff.isFile n = true → hasKey n "id" = true

lemma mem_filesAmong :
    v ∈ filesAmong nodes ↔ ∃ n ∈ nodes, Diff.isFile n = true ∧ n.member? "id" = some v := by
  simp [filesAmong]

namespace Rooted

variable {nodes : List Json}

lemma fileIds_eq (h : Rooted g nodes) : fileIds nodes = .ok (filesAmong nodes) := by
  refine filterMapM_of_forall fun n hn ↦ ?_
  rw [Diff.isFileNode_eq_ok (h.objects n hn)]
  simp only [bind, Except.bind]
  split
  next hfile =>
    obtain ⟨id, k, hid, hk⟩ := exists_of_hasKey (h.keyed n hn hfile)
    rw [need_eq_ok.2 hid, hid]
    simp only [key_eq_ok.2 hk]
    rfl
  next => rfl

lemma exists_key (h : Rooted g nodes) (hv : v ∈ filesAmong nodes) : ∃ f, v.key? = some f := by
  obtain ⟨n, hn, hfile, hid⟩ := mem_filesAmong.1 hv
  obtain ⟨id, f, hid', hf⟩ := exists_of_hasKey (h.keyed n hn hfile)
  cases hid.symm.trans hid'
  exact ⟨f, hf⟩

end Rooted

/-- At first every file owns itself. -/
lemma exists_roots (hkeyed : ∀ v ∈ files, ∃ f, v.key? = some f) :
    ∃ roots, files.foldlM (fun (owners : Table Key Json) f ↦ do
        return owners.put (← f.key) f) [] = (.ok roots : Except Fault (Table Key Json)) ∧
      (∀ k v, roots.get? k = some v → NamesFile files k v) ∧ ∀ k, IsStart files k →
      k ∈ roots.keys := by
  have hrun : ∃ roots, files.foldlM (fun (owners : Table Key Json) f ↦ do
      return owners.put (← f.key) f) [] = (.ok roots : Except Fault (Table Key Json)) := by
    refine foldlM_succeeds (fun owners v hv ↦ ?_) []
    obtain ⟨f, hf⟩ := hkeyed v hv
    exact ⟨put owners f v, by rw [key_eq_ok.2 hf]; rfl⟩
  obtain ⟨roots, hroots⟩ := hrun
  refine ⟨roots, hroots, foldlM_invariant (fun met (roots : Table Key Json) ↦
    (∀ k v, roots.get? k = some v → NamesFile met k v) ∧ ∀ k, IsStart met k → k ∈ roots.keys)
    ?_ (by simp [IsStart, NamesFile]) hroots⟩
  intro met roots v roots' hmet hstep
  simp only [bind_eq_ok, pure_eq_ok, key_eq_ok] at hstep
  obtain ⟨f, hf, rfl⟩ := hstep
  refine ⟨fun k w hw ↦ ?_, ?_⟩
  · rw [get?_put] at hw
    split at hw
    next heq =>
      cases hw
      exact ⟨by simp, heq ▸ hf⟩
    next => exact (hmet.1 k w hw).imp_left (mem_append_left _)
  · rintro k ⟨w, hw, hk⟩
    rw [mem_keys_put]
    rcases mem_append.1 hw with hw | hw
    · exact .inr (hmet.2 k ⟨w, hw, hk⟩)
    · obtain rfl := mem_singleton.1 hw
      exact .inl (Option.some.inj (hk.symm.trans hf))

/-- So all of them wait, none of them farther away than the others. -/
lemma spreading_roots (leads : Key → Key → Prop) {roots : Table Key Json}
    {queue : List Key} (hroots : ∀ k v, roots.get? k = some v → NamesFile files k v)
    (hstarts : ∀ k, IsStart files k → k ∈ roots.keys) (hqueue : files.map key? = queue.map some) :
    Spreading leads files queue roots := by
  have hmem (k : Key) : k ∈ queue ↔ IsStart files k := by
    have hsome : some k ∈ files.map key? ↔ some k ∈ queue.map some := by rw [hqueue]
    simpa [IsStart, NamesFile] using hsome.symm
  have hzero (k : Key) (hk : k ∈ queue) : distance leads (IsStart files) k = 0 :=
    Nat.le_zero.1 (distance_le ((hmem k).1 hk) .here)
  refine ⟨fun k v hv ↦ ⟨k, 0, hroots k v hv, ⟨v, hroots k v hv⟩, .here,
    fun _ _ _ _ ↦ Nat.zero_le _⟩,
    fun f v hf ↦ hstarts f ⟨v, hf⟩, fun k hk ↦ hstarts k ((hmem k).1 hk), fun k hk hleft ↦ ?_,
    pairwise_of_forall_mem_list fun a ha b hb ↦ by rw [hzero a ha, hzero b hb], fun a _ b hb ↦ ?_⟩
  · obtain ⟨v, hv⟩ := exists_of_mem_keys hk
    exact absurd ((hmem k).2 ⟨v, hroots k v hv⟩) hleft
  · rw [hzero b hb]
    exact Nat.zero_le _

/-- The keys that ownership edges lead to are no more than the edges. -/
lemma exists_targets (edges : List Json) :
    ∃ targets : Finset Key, targets.card ≤ edges.length ∧ ∀ a b, Owns edges a b → b ∈ targets := by
  refine ⟨(edges.filterMap fun e ↦ (e.member? "target").bind key?).toFinset,
    (toFinset_card_le _).trans (length_filterMap_le _ _), ?_⟩
  rintro a b ⟨child, ⟨e, he, -, -, -, -, -, -, htarget⟩, hb⟩
  exact mem_toFinset.2 (mem_filterMap.2 ⟨e, he, by rw [htarget, Option.bind_some, hb]⟩)

lemma exists_spreading (hnodes : Rooted g nodes)
    (hedges : Ownable g edges) : ∃ owners, ownersOf g = .ok owners ∧
      Spreading (Owns edges) (filesAmong nodes) [] owners := by
  have hkeyed (v : Json) (hv : v ∈ filesAmong nodes) := hnodes.exists_key hv
  obtain ⟨queue, hqueue⟩ : ∃ queue : List Key, (filesAmong nodes).map key? = queue.map some := by
    choose key hkey using hkeyed
    refine ⟨(filesAmong nodes).pmap key fun _ hv ↦ hv, ?_⟩
    rw [map_pmap, ← pmap_eq_map fun _ hv ↦ hv]
    exact pmap_congr_left _ fun v _ hv _ ↦ hkey v hv
  obtain ⟨roots, hrun, hroots, hstarts⟩ := exists_roots hkeyed
  obtain ⟨owned, howned⟩ := hedges.exists_ownedBy
  obtain ⟨targets, hcard, htargets⟩ := exists_targets edges
  have hsteps : queue.length + (targets \ roots.keys.toFinset).card ≤
      (filesAmong nodes).length + edges.length + 1 := by
    have hlength : queue.length = (filesAmong nodes).length := by
      simpa using (congrArg List.length hqueue).symm
    have hle := Finset.card_le_card (Finset.sdiff_subset (s := targets) (t := roots.keys.toFinset))
    omega
  have hspreads := spreading_roots (Owns edges) hroots hstarts hqueue
  obtain ⟨owners, hspread, hend⟩ := hspreads.exists_spreadOwners
    (fun k v hv ↦ hedges.exists_key ((mem_ownedBy howned k v).1 hv))
    (fun k b ↦ by simp only [Owns, mem_ownedBy howned]) htargets _ hqueue hsteps
  refine ⟨owners, ?_, hend⟩
  simp only [ownersOf, bind_eq_ok]
  exact ⟨_, hnodes.found, _, hnodes.fileIds_eq, roots, hrun, edges, hedges.found, owned,
    howned, hspread⟩

lemma Tabled.rooted {nodes : Table Key Json} (h : Tabled g nodes) : Rooted g nodes.values := by
  refine ⟨h.nodesOf_eq, fun n hn ↦ ?_, fun n hn _ ↦ h.keyed n hn⟩
  obtain ⟨id, -, hid, -⟩ := exists_of_hasKey (h.keyed n hn)
  exact isObject_of_member? hid

/-- A value is the id of a file under a key. -/
def IsFileId (nodes : Table Key Json) (f : Key) (v : Json) : Prop :=
  v.key? = some f ∧ (Diff.fileHash? nodes f).isSome = true

/-- The owner of a node is the id of a file from which a chain of ownership edges leads to it. -/
def OwnedFrom (nodes : Table Key Json) (edges : List Json) (k : Key) (owner : Json) : Prop :=
  ∃ f, IsFileId nodes f owner ∧ ∃ length, Walk (Owns edges) f length k

/-- A relation between keys and their owners holds throughout a table. -/
def Holds (P : Key → Json → Prop) (owners : Table Key Json) : Prop :=
  ∀ k owner, owners.get? k = some owner → P k owner

/-- The owners of a graph can be found, and each of them is a file with a chain to what it owns. -/
lemma exists_ownersOf {nodes : Table Key Json} (hg : Tabled g nodes) (hedges : Ownable g edges) :
    ∃ owners, ownersOf g = .ok owners ∧ Holds (OwnedFrom nodes edges) owners := by
  obtain ⟨owners, hrun, hend⟩ := exists_spreading hg.rooted hedges
  refine ⟨owners, hrun, fun k owner howner ↦ ?_⟩
  obtain ⟨f, n, ⟨hmem, hf⟩, hnear⟩ := hend.nearest k owner howner
  obtain ⟨node, hnode, hfile, hid⟩ := mem_filesAmong.1 hmem
  obtain ⟨⟨key, node⟩, hmem, rfl⟩ := mem_map.1 hnode
  obtain ⟨id, hid', hkey⟩ := hg.identified key node hmem
  cases hid.symm.trans hid'
  cases hf.symm.trans hkey
  refine ⟨f, ⟨hf, ?_⟩, n, hnear.walk⟩
  simp [Diff.fileHash?, get?_of_mem hg.distinct hmem, hfile, Option.filter]

/-- The owned are just what a chain of ownership edges leads to from a file. A file owns itself, and
every owner is a file from which a chain leads that is no longer than any chain from a file. -/
theorem owners_are_nearest_files {g : Json} {nodes edges : List Json} (hnodes : Rooted g nodes)
    (hedges : Ownable g edges) :
    ∃ owners, ownersOf g = .ok owners ∧
      (∀ k, k ∈ owners.keys ↔ ∃ f v n, NamesFile (filesAmong nodes) f v ∧ Walk (Owns edges) f n k) ∧
      (∀ f v, NamesFile (filesAmong nodes) f v →
        ∃ v', owners.get? f = some v' ∧ NamesFile (filesAmong nodes) f v') ∧
      ∀ k v, owners.get? k = some v → ∃ f n, NamesFile (filesAmong nodes) f v ∧
        Walk (Owns edges) f n k ∧
        ∀ f' v' m, NamesFile (filesAmong nodes) f' v' → Walk (Owns edges) f' m k → n ≤ m := by
  obtain ⟨owners, hrun, hend⟩ := exists_spreading hnodes hedges
  refine ⟨owners, hrun, hend.mem_keys_iff, fun f v hf ↦ ?_, fun k v hv ↦ ?_⟩
  · obtain ⟨v', hv'⟩ := exists_of_mem_keys (hend.started f v hf)
    obtain ⟨f', n, hf', hnear⟩ := hend.nearest f v' hv'
    -- No file is nearer to a file than itself.
    obtain rfl := Nat.le_zero.1 (hnear.least f 0 ⟨v, hf⟩ .here)
    cases hnear.walk
    exact ⟨v', hv', hf'⟩
  · obtain ⟨f, n, hf, hnear⟩ := hend.nearest k v hv
    exact ⟨f, n, hf, hnear.walk, fun f' v' m hf' walk ↦ hnear.least f' m ⟨v', hf'⟩ walk⟩

/-- Two files, of which the second defines what is two steps away from the first. What they own goes
in a circle, and an id without a node is owned as well. -/
def sharedNodes : List Json :=
  ["a.py", "b.py", "a.py"].map (fun id ↦ .obj [("id", .str id), ("node_type", .str "File")]) ++
    [.obj [("id", .str "y"), ("node_type", .str "Class")], .obj []]

def sharedEdges : List Json :=
  [("defines", "a.py", "x"), ("contains_class", "x", "y"), ("defines", "b.py", "y"),
    ("contains_member", "y", "x"), ("contains_method", "y", "ghost")].map
      (fun e ↦ .obj [("type", .str e.1), ("source", .str e.2.1), ("target", .str e.2.2)]) ++
    [.obj [("type", .str "calls"), ("source", .arr []), ("target", .null)]]

def sharedGraph : Json := .obj [("nodes", .arr sharedNodes), ("edges", .arr sharedEdges)]

theorem owners_are_nearest_files_shared :
    Rooted sharedGraph sharedNodes ∧ Ownable sharedGraph sharedEdges ∧ ∃ owners,
      ownersOf sharedGraph = .ok owners ∧
      owners.keys = ["a.py", "b.py", "x", "y", "ghost"].map Key.str ∧
      owners.get? (.str "ghost") = some (.str "b.py") ∧
      ∃ f n, NamesFile (filesAmong sharedNodes) f (.str "b.py") ∧
        Walk (Owns sharedEdges) f n (.str "ghost") ∧
        ∀ f' v' m, NamesFile (filesAmong sharedNodes) f' v' →
          Walk (Owns sharedEdges) f' m (.str "ghost") → n ≤ m := by
  have hnodes : Rooted sharedGraph sharedNodes :=
    ⟨rfl, by simp [sharedNodes, Json.IsObject], by decide⟩
  have hedges : Ownable sharedGraph sharedEdges := by
    refine ⟨rfl, by decide, fun e he kind hkind htype ↦ ?_⟩
    have hends : ∀ e ∈ sharedEdges, e.member? "type" = some (.str "calls") ∨
        hasKey e "source" ∧ hasKey e "target" := by decide
    refine (hends e he).resolve_left fun hcalls ↦ ?_
    cases Option.some.inj (htype.symm.trans hcalls)
    exact absurd hkind (by decide)
  obtain ⟨owners, hrun, -, -, hnearest⟩ := owners_are_nearest_files hnodes hedges
  obtain ⟨hkeys, howner⟩ : owners.keys = _ ∧ owners.get? (.str "ghost") = some (.str "b.py") := by
    obtain rfl := Except.ok.inj (hrun.symm.trans rfl)
    exact ⟨rfl, rfl⟩
  exact ⟨hnodes, hedges, owners, hrun, hkeys, howner, hnearest _ _ howner⟩

end CodeAtlas.Graph
