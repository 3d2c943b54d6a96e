import CodeAtlas.Build.Sketch
import CodeAtlas.Proofs.BuiltGraph
import CodeAtlas.Proofs.Stepwise

/-!
# Graphs of things that files name

In a graph of markup or style a file is known by its name, and a thing by the file that names it,
its kind and its own name, with two colons between them. File names without two colons in a row
leave no doubt which kind an id stands for, whatever the things are called. So a node that is left
out because its id is taken has the kind of the one that is there, and every edge fits.
-/

namespace CodeAtlas.Build

open Stepwise List

variable {A B fileKind id kind name : String} {P : Sketch → Prop} {s : Sketch}

lemma isInfixOf_iff {part whole : List Char} : Text.isInfixOf part whole = true ↔
    part <:+: whole := by
  induction whole with
  | nil => simp [Text.isInfixOf]
  | cons c rest ih =>
    rw [Text.isInfixOf, Bool.or_eq_true, ih, isPrefixOf_iff_prefix, infix_cons_iff]

lemma occursIn_self (s : String) : Text.occursIn s s = true := isInfixOf_iff.2 infix_rfl

lemma occursIn_append (s part t : String) : Text.occursIn part (s ++ part ++ t) = true := by
  rw [Text.occursIn, isInfixOf_iff, String.toList_append, String.toList_append]
  exact ⟨s.toList, t.toList, rfl⟩

/-- No two colons stand next to each other in a text. -/
def Undivided (s : String) : Prop := ¬[':', ':'] <:+: s.toList

lemma undivided_iff {s : String} : Undivided s ↔ Text.occursIn "::" s = false := by
  rw [Undivided, ← isInfixOf_iff, Bool.not_eq_true]
  rfl

lemma takeWhile_colon {t : List Char} (h : ':' ∉ t) (rest : List Char) :
    (t ++ ':' :: rest).takeWhile (· ≠ ':') = t := by
  have hall : ∀ c ∈ t, decide (c ≠ ':') = true := fun c hc ↦ decide_eq_true fun heq ↦ h (heq ▸ hc)
  rw [takeWhile_append_of_pos hall]
  simp

lemma eq_of_labelled_eq {k k' p p' : List Char} (hk : ':' ∉ k) (hk' : ':' ∉ k')
    (h : k ++ ':' :: p = k' ++ ':' :: p') : k = k' ∧ p = p' := by
  have hkind : k = k' := by rw [← takeWhile_colon hk p, h, takeWhile_colon hk' p']
  subst hkind
  exact ⟨rfl, (List.cons.inj (append_cancel_left h)).2⟩

/-- What stands between the first two pairs of colons of an id does not depend on how it is read. -/
lemma middle_eq {f g t u v w : List Char} (hf : ¬[':', ':'] <:+: f) (hg : ¬[':', ':'] <:+: g)
    (ht : ':' ∉ t) (hu : ':' ∉ u) (ht' : t ≠ []) (hu' : u ≠ [])
    (h : f ++ ':' :: ':' :: (t ++ ':' :: v) = g ++ ':' :: ':' :: (u ++ ':' :: w)) : t = u := by
  -- A first part that is used up before the other one would have to go on with a colon.
  have hshort {g t v rest : List Char} {c : Char} (hg : ¬[':', ':'] <:+: c :: g) (ht : ':' ∉ t)
      (ht' : t ≠ []) (h : ':' :: ':' :: (t ++ ':' :: v) = (c :: g) ++ ':' :: ':' :: rest) :
      False := by
    rw [cons_append, List.cons.injEq] at h
    obtain ⟨rfl, h⟩ := h
    cases g with
    | nil =>
      cases t with
      | nil => exact ht' rfl
      | cons d t =>
        simp only [nil_append, cons_append, List.cons.injEq, true_and] at h
        exact ht (h.1 ▸ mem_cons_self)
    | cons d g =>
      rw [cons_append, List.cons.injEq] at h
      obtain ⟨rfl, -⟩ := h
      exact hg ⟨[], g, rfl⟩
  induction f generalizing g with
  | nil =>
    cases g with
    | nil =>
      simp only [nil_append, List.cons.injEq, true_and] at h
      rw [← takeWhile_colon ht v, h, takeWhile_colon hu w]
    | cons d g => exact (hshort hg ht ht' h).elim
  | cons c f ih =>
    cases g with
    | nil => exact (hshort hf hu hu' h.symm).elim
    | cons d g =>
      rw [cons_append, cons_append, List.cons.injEq] at h
      refine ih (fun hinfix ↦ hf ?_) (fun hinfix ↦ hg ?_) h.2
      · exact hinfix.trans (suffix_cons c f).isInfix
      · exact hinfix.trans (suffix_cons d g).isInfix

/-- A kind of things that a file of a kind can name. -/
def isThing (fileKind kind : String) : Bool :=
  coreKinds.contains kind && kind != fileKind && !kind.toList.contains ':'

/-- An id stands for a file, or for a thing of a kind that a file names. -/
def IdOf (fileKind id kind : String) : Prop :=
  kind = fileKind ∧ Undivided id ∨
    isThing fileKind kind = true ∧
      ∃ name value, Undivided name ∧ id = name ++ "::" ++ kind ++ "::" ++ value

lemma toList_scoped (name kind value : String) : (name ++ "::" ++ kind ++ "::" ++ value).toList =
      name.toList ++ ':' :: ':' :: (kind.toList ++ ':' :: (':' :: value.toList)) := by
  simp [String.toList_append]

lemma not_undivided_scoped (name kind value : String) :
    ¬Undivided (name ++ "::" ++ kind ++ "::" ++ value) := by
  intro h
  exact h ⟨name.toList, kind.toList ++ ':' :: (':' :: value.toList), by simp⟩

lemma isThing_iff :
    isThing fileKind kind = true ↔ kind ∈ coreKinds ∧ kind ≠ fileKind ∧ ':' ∉ kind.toList := by
  simp [isThing, and_assoc]

lemma IdOf.unique (hA : IdOf fileKind id A) (hB : IdOf fileKind id B) : A = B := by
  obtain ⟨rfl, hid⟩ | ⟨hthing, name, value, hname, rfl⟩ := hA
  · obtain ⟨rfl, -⟩ | ⟨-, name, value, -, rfl⟩ := hB
    · rfl
    · exact absurd hid (not_undivided_scoped _ _ _)
  · obtain ⟨rfl, hid⟩ | ⟨hthing', name', value', hname', hid⟩ := hB
    · exact absurd hid (not_undivided_scoped _ _ _)
    · obtain ⟨hcore, -, hcolon⟩ := isThing_iff.1 hthing
      obtain ⟨hcore', -, hcolon'⟩ := isThing_iff.1 hthing'
      have hempty {kind : String} (h : kind ∈ coreKinds) : kind.toList ≠ [] := fun hnil ↦
        ne_empty_of_mem_coreKinds h (String.toList_eq_nil_iff.1 hnil)
      have hlist := congrArg String.toList hid
      rw [toList_scoped, toList_scoped] at hlist
      exact String.toList_inj.1 (middle_eq hname hname' hcolon hcolon' (hempty hcore)
        (hempty hcore') hlist)

namespace Sketch

variable {details : List (String × Json)} {o : Outline}

/-- Details of a node that leave alone what it is known by. -/
def AreDetails (details : List (String × Json)) : Prop :=
  ∀ name ∈ ["id", "node_type", "type", "name", "file_path"], name ∉ Table.keys details

lemma member?_nodeDocument {type : Json} {confidence key : String} (h : AreDetails details)
    (hkey : key ∈ ["id", "node_type", "type", "name", "file_path"]) :
    (nodeDocument type name id confidence details).member? key =
      Table.get? [("node_type", type), ("name", .str name), ("id", .str id)] key := by
  rw [nodeDocument, Json.member?_obj,
    Table.get?_merge_of_none (Table.get?_eq_none_iff.2 (h key hkey))]
  simp only [mem_cons, not_mem_nil, or_false] at hkey
  rcases hkey with rfl | rfl | rfl | rfl | rfl
  all_goals rfl

lemma named_nodeDocument {confidence : String} (h : AreDetails details) :
    Named (nodeDocument kind name id confidence details) id kind := by
  refine ⟨?_, ?_, ?_⟩
  · rw [member?_nodeDocument h (by simp)]
    rfl
  · rw [member?_nodeDocument h (by simp)]
    rfl
  · rw [member?_nodeDocument h (by simp)]
    rfl

/-- A sketch of files of a kind: its ids tell the kinds of its nodes, and an id is taken only if
there is a node of it. -/
structure Proper (fileKind : String) (s : Sketch) : Prop where
  built : s.draft.Built
  ids : ∀ id kind, s.draft.HasNode id kind → IdOf fileKind id kind
  taken : ∀ id ∈ s.nodeIds, ∃ kind, s.draft.HasNode id kind

/-- A proper sketch that is reading the file of a name. -/
structure Reading (fileKind name : String) (s : Sketch) : Prop where
  proper : s.Proper fileKind
  file : s.file = some name
  fileId : s.fileId = some name
  node : s.draft.HasNode name fileKind

namespace Proper

variable {s : Sketch}

lemma fits (h : s.Proper fileKind) {e : Json} (he : e ∈ s.draft.edges) : s.draft.Fits e :=
  h.built.fits_of_single (fun id A B hA hB ↦ (h.ids id A hA).unique (h.ids id B hB)) he

/-- A node is added under its id, or is there already with its kind. -/
lemma addNode (h : s.Proper fileKind) (hid : IdOf fileKind id kind) (hne : id ≠ "")
    (hkind : kind ∈ coreKinds) (name confidence : String) (hdetails : AreDetails details) :
    (s.addNode kind name id confidence details).Proper fileKind ∧
      (s.addNode kind name id confidence details).draft.HasNode id kind ∧
      s.draft.nodes ⊆ (s.addNode kind name id confidence details).draft.nodes := by
  rw [Sketch.addNode]
  split
  next htaken =>
    obtain ⟨kind', hnode⟩ := h.taken id (contains_iff_mem.1 htaken)
    obtain rfl := (h.ids id kind' hnode).unique hid
    exact ⟨h, hnode, List.Subset.refl _⟩
  next =>
    have hnamed : Named (nodeDocument kind name id confidence details) id kind :=
      named_nodeDocument hdetails
    have hsub : s.draft.nodes ⊆
        (s.draft.addNode (nodeDocument kind name id confidence details)).nodes :=
      subset_append_left _ _
    have hnode : Draft.HasNode (s.draft.addNode (nodeDocument kind name id confidence details))
      id kind := ⟨_, mem_append_right _ mem_cons_self, hnamed⟩
    refine ⟨⟨h.built.addNode ⟨id, kind, hnamed, hne, hkind⟩, fun id' kind' hnode' ↦ ?_,
      fun id' hid' ↦ ?_⟩, hnode, hsub⟩
    · obtain ⟨n, hn, hnamed'⟩ := hnode'
      rcases mem_append.1 hn with hn | hn
      · exact h.ids id' kind' ⟨n, hn, hnamed'⟩
      · obtain rfl := mem_singleton.1 hn
        cases hnamed.id.symm.trans hnamed'.id
        cases hnamed.kind.symm.trans hnamed'.kind
        exact hid
    · rcases mem_cons.1 hid' with rfl | hid'
      · exact ⟨kind, hnode⟩
      · obtain ⟨kind', hnode'⟩ := h.taken id' hid'
        exact ⟨kind', hnode'.mono hsub⟩

end Proper

lemma Proper.addLog (h : s.Proper fileKind) (entry : Json) :
    Proper fileKind { s with draft := s.draft.addLog entry } :=
  ⟨h.built.addLog entry, h.ids, h.taken⟩

lemma proper_start (fileKind : String) (issued : Nat) :
    Proper fileKind { draft := { issued } } := by
  refine ⟨.empty issued, ?_, ?_⟩
  · rintro id kind ⟨n, hn, -⟩
    cases hn
  · intro id hid
    cases hid

lemma keeps_emitTicket_of (hissue : ∀ s, P s → P { s with draft := s.draft.issue })
    (hticket : ∀ s t resolver, P s → P { s with draft := s.draft.addTicket t resolver })
    (o : Outline)
    (kind : String) (expression : Json) (reason : String) (scope : Json) (confidence : String) :
    Keeps P (emitTicket o kind expression reason scope confidence) := by
  refine .bind (.of_modify hissue) fun _ ↦ .bind (.lift _) fun resolver ↦ ?_
  exact .of_modify fun s ↦ hticket s _ resolver

/-- What survives tickets survives an edge if it survives one that the core schema permits. -/
lemma after_emitEdge (ho : o.rules = coreRules) {source target : String} (hs : P s)
    (hticket : ∀ kind expression reason scope confidence,
      Keeps P (emitTicket o kind expression reason scope confidence))
    (hadd : ∀ key kind, permits kind A B = true → P { s with
        draft := s.draft.addEdge
          (.obj [("edge", .str kind), ("from", .str source), ("to", .str target)])
        edgeKeys := (key, source, target) :: s.edgeKeys }) (edge : Json) :
    P (after (emitEdge o edge source target A B) s) := by
  refine after_lift_bind hs fun key _ ↦ after_get_bind ?_
  split
  · exact hticket _ _ _ _ _ s hs
  · refine after_lift_bind hs fun allowed hallowed ↦ ?_
    split
    · exact hticket _ _ _ _ _ s hs
    next htrue =>
      split
      · rw [ho] at hallowed
        obtain rfl : allowed = true := by simpa using htrue
        obtain ⟨kind, rfl, hpermits⟩ := permits_of_allows hallowed
        exact hadd key kind hpermits
      · exact hs

lemma file_addNode (s : Sketch) (type : Json) (name id confidence : String)
    (details : List (String × Json)) : (s.addNode type name id confidence details).file = s.file ∧
      (s.addNode type name id confidence details).fileId = s.fileId := by
  rw [addNode]
  split <;> exact ⟨rfl, rfl⟩

lemma Proper.reading (h : s.Proper fileKind)
    (hname : Undivided name) (hne : name ≠ "") (hkind : fileKind ∈ coreKinds) (confidence : String)
    (hdetails : AreDetails details) :
    (s.opened fileKind name confidence details).Reading fileKind name := by
  have hopened : Proper fileKind { s with file := some name } := ⟨h.built, h.ids, h.taken⟩
  obtain ⟨hproper, hnode, -⟩ :=
    hopened.addNode (.inl ⟨rfl, hname⟩) hne hkind name confidence hdetails
  refine ⟨⟨hproper.built, hproper.ids, hproper.taken⟩, ?_, rfl, hnode⟩
  exact (file_addNode _ _ _ _ _ _).1

lemma Reading.addThing (h : s.Reading fileKind name)
    (hname : Undivided name) (hkind : isThing fileKind kind = true)
    (value confidence : String) (hdetails : AreDetails details) : Reading fileKind name
        (s.addNode kind value (scopedId name kind value) confidence details) ∧ Draft.HasNode
        (s.addNode kind value (scopedId name kind value) confidence details).draft
        (scopedId name kind value) kind := by
  have hid : IdOf fileKind (scopedId name kind value) kind :=
    .inr ⟨hkind, name, value, hname, rfl⟩
  have hne : scopedId name kind value ≠ "" := by
    intro hempty
    have hlist := congrArg String.toList hempty
    rw [show scopedId name kind value = name ++ "::" ++ kind ++ "::" ++ value from rfl,
      toList_scoped] at hlist
    simp at hlist
  obtain ⟨hproper, hnode, hsub⟩ :=
    h.proper.addNode hid hne (isThing_iff.1 hkind).1 value confidence hdetails
  obtain ⟨hfile, hfileId⟩ := file_addNode s kind value (scopedId name kind value) confidence details
  exact ⟨⟨hproper, hfile.trans h.file, hfileId.trans h.fileId, h.node.mono hsub⟩, hnode⟩

/-- What is carried from file to file, and what is carried along while a file is read: tickets do
not affect it, things that the file names can be added, and so can edges to what is there. -/
structure Carries (fileKind name : String) (Q P : Sketch → Prop)
    (There : String → String → Sketch → Prop) : Prop where
  opens : ∀ s, Q s → ∀ confidence details, AreDetails details →
    P (s.opened fileKind name confidence details)
  closes : ∀ s, P s → Q s
  file : ∀ s, P s → s.file = some name
  issue : ∀ s, P s → P { s with draft := s.draft.issue }
  ticket : ∀ s t resolver, P s → P { s with draft := s.draft.addTicket t resolver }
  thing : ∀ s, P s → ∀ kind value confidence details, isThing fileKind kind = true →
    AreDetails details →
    P (s.addNode (.str kind) value (scopedId (.str name) (.str kind) value) confidence details) ∧
      There (scopedId (.str name) (.str kind) value) kind
        (s.addNode (.str kind) value (scopedId (.str name) (.str kind) value) confidence details)
  edge : ∀ s key kind target other, P s → There target other s → permits kind fileKind other =
    true → P { s with
    draft := s.draft.addEdge
      (.obj [("edge", .str kind), ("from", .str (s.fileId.getD "")), ("to", .str target)])
    edgeKeys := (key, s.fileId.getD "", target) :: s.edgeKeys }

lemma carries_reading (hname : Undivided name) (hne : name ≠ "")
    (hkind : fileKind ∈ coreKinds) : Carries fileKind name (Proper fileKind) (Reading fileKind name)
      fun id kind s ↦ s.draft.HasNode id kind where
  opens _ hs confidence _ hdetails := hs.reading hname hne hkind confidence hdetails
  closes _ hs := hs.proper
  file _ hs := hs.file
  issue _ hs :=
    ⟨⟨hs.proper.built.issue, hs.proper.ids, hs.proper.taken⟩, hs.file, hs.fileId, hs.node⟩
  ticket _ t resolver hs :=
    ⟨⟨hs.proper.built.addTicket t resolver, hs.proper.ids, hs.proper.taken⟩, hs.file,
      hs.fileId, hs.node⟩
  thing _ hs _ value confidence _ hkind hdetails :=
  hs.addThing hname hkind value confidence hdetails
  edge s key kind target other hs hthere hpermits := by
    rw [hs.fileId, Option.getD_some]
    refine ⟨⟨hs.proper.built.addEdge ?_, hs.proper.ids, hs.proper.taken⟩, hs.file, rfl, hs.node⟩
    exact ⟨kind, name, target, fileKind, other, ⟨rfl, rfl, rfl⟩, hs.node, hthere, hpermits⟩

end Sketch

end CodeAtlas.Build
