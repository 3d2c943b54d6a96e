import CodeAtlas.Proofs.SketchedGraph

/-!
# Finding a node by its id

A search takes a text with a single colon for an attribute and its value, and any other text for a
part of a name or an id. The ids of symbols have colons in pairs, and a node is found by such an id,
as by one without a colon. The ids of files have one colon, and by these a node is found only by
accident.
-/

namespace CodeAtlas

open Fallible List Text Json

namespace Graph

variable {g n : Json} {nodes : List Json} {id before after name value : String} {b : Bool}

lemma ofQuery_part (h : ':' ∉ id.toList ∨ occursIn "::" id = true) :
    Wanted.ofQuery id = .ok (.part (lower id)) := by
  have hwhole : occursIn ":" id = true → occursIn "::" id = true := by
    intro hsingle
    refine h.resolve_left fun hnone ↦ hnone ?_
    rw [occursIn, Build.isInfixOf_iff] at hsingle
    exact hsingle.subset (mem_singleton_self ':')
  rw [Wanted.ofQuery, holds]
  cases hsingle : occursIn ":" id with
  | false => rfl
  | true => simp [holds, hwhole hsingle, strBy, bind, Except.bind, pure, Except.pure]

lemma ofQuery_attribute (hbefore : ':' ∉ before.toList)
    (h : occursIn "::" (before ++ ":" ++ after) = false) :
    Wanted.ofQuery (.str (before ++ ":" ++ after)) =
      .ok (.attribute (lower before) (lower after)) := by
  have hsingle := Build.occursIn_append before ":" after
  have htext : (before ++ ":" ++ after).toList = before.toList ++ ':' :: after.toList := by simp
  have hname : (before.toList ++ ':' :: after.toList).takeWhile (· != ':') = before.toList := by
    have hother : ∀ c ∈ before.toList, (c != ':') = true :=
      fun c hc ↦ bne_iff_ne.2 fun heq ↦ hbefore (heq ▸ hc)
    rw [takeWhile_append_of_pos hother]
    simp
  simp [Wanted.ofQuery, holds, hsingle, h, strBy, htext, hname, bind, Except.bind,
    pure, Except.pure]

/-- A node has an attribute of a value: as a member of its own, among its attributes or as a
decorator. -/
inductive Bears (n : Json) (name value : String) : Prop
  | own (h : isShownAs value ((n.member? name).getD "") = true)
  | attribute {a : Json} (ha : n.member? "attributes" = some a) (htruthy : a.truthy = true)
      (h : isShownAs value ((a.member? name).getD "") = true)
  | decorator (hname : name = "decorator" ∨ name = "@") (h : hasDecorator n value = .ok true)

lemma amongAttributes_spec (hn : n.IsObject) (h : amongAttributes n name value = .ok b) : b = true ↔
    ∃ a, n.member? "attributes" = some a ∧ a.truthy = true ∧
      isShownAs value ((a.member? name).getD "") = true := by
  rw [amongAttributes, holds_eq hn] at h
  cases hmember : n.member? "attributes" with
  | none =>
    rw [hmember] at h
    cases h
    simp
  | some a =>
    rw [hmember, need_eq_ok.2 hmember] at h
    change (if a.truthy = true then _ else _) = _ at h
    split at h
    next htruthy =>
      obtain ⟨v, hv, hb⟩ := bind_eq_ok.1 h
      rw [← (getD_eq_ok.1 hv).2, pure_eq_ok] at hb
      simp [htruthy, hb]
    next hfalsy =>
      cases h
      simp [hfalsy]

lemma hasAttribute_spec (h : hasAttribute n name value = .ok b) :
    b = true ↔ Bears n name value := by
  simp only [hasAttribute, bind_eq_ok, pure_eq_ok, getD_eq_ok] at h
  obtain ⟨among, hamong, decorated, hdecorated, _, ⟨hn, rfl⟩, rfl⟩ := h
  rw [Bool.or_eq_true, Bool.or_eq_true, amongAttributes_spec hn hamong]
  have hdecorator : decorated = true ↔
      (name = "decorator" ∨ name = "@") ∧ hasDecorator n value = .ok true := by
    rw [amongDecorators] at hdecorated
    split at hdecorated
    next hname => simp_all
    next hname => simp_all
  rw [hdecorator]
  constructor
  · rintro ((⟨a, ha, htruthy, h⟩ | ⟨hname, h⟩) | h)
    · exact .attribute ha htruthy h
    · exact .decorator hname h
    · exact .own h
  · rintro (h | ⟨ha, htruthy, h⟩ | ⟨hname, h⟩)
    · exact .inr h
    · exact .inl (.inl ⟨_, ha, htruthy, h⟩)
    · exact .inl (.inr ⟨hname, h⟩)

lemma search_eq {wanted : Wanted} {query : Json} (hg : nodesOf g = .ok nodes)
    (hquery : Wanted.ofQuery query = .ok wanted) : search g query .null =
      nodes.filterM (isWanted wanted) >>= fun found ↦ pure (found.take searchLimit) := by
  rw [search, hquery, hg]
  rfl

def HasTexts (n : Json) : Prop := HasTextId n ∧ ∃ name, n.member? "name" = some (.str name)

lemma isWanted_part (hid : n.member? "id" = some (.str id))
    (hname : n.member? "name" = some (.str name)) (text : String) : isWanted (.part text) n =
      .ok (occursIn text (lower name) || occursIn text (lower id)) := by
  rw [isWanted, getD_of_member? hid, getD_of_member? hname]
  rfl

/-- A search for the id of a node finds it if the id has no colon or two in a row. With a single
colon it looks for an attribute, and then it finds the node only if that happens to bear it and no
node is in the way. -/
theorem found_by_own_id_iff (hg : nodesOf g = .ok nodes) (hfew : nodes.length ≤ searchLimit)
    (htexts : ∀ m ∈ nodes, HasTexts m) (hn : n ∈ nodes) (hid : n.member? "id" = some (.str id)) :
    ((':' ∉ id.toList ∨ Text.occursIn "::" id = true) →
      ∃ found, search g (.str id) .null = .ok found ∧ n ∈ found) ∧
    ∀ before after, id = before ++ ":" ++ after → ':' ∉ before.toList →
      Text.occursIn "::" id = false → ((∃ found, search g (.str id) .null = .ok found ∧ n ∈ found) ↔
        (∀ m ∈ nodes, ∃ b, hasAttribute m (Text.lower before) (Text.lower after) = .ok b) ∧
          Bears n (Text.lower before) (Text.lower after)) := by
  have hfinds {wanted : Wanted} (hquery : Wanted.ofQuery (.str id) = .ok wanted) :
      (∃ found, search g (.str id) .null = .ok found ∧ n ∈ found) ↔
        (∀ m ∈ nodes, ∃ b, isWanted wanted m = .ok b) ∧ isWanted wanted n = .ok true := by
    rw [search_eq hg hquery]
    constructor
    · rintro ⟨found, hfound, hmem⟩
      obtain ⟨all, hall, htake⟩ := bind_eq_ok.1 hfound
      cases htake
      obtain ⟨htested, hkept⟩ := filterM_eq_ok hall
      exact ⟨htested, ((hkept n).1 (mem_of_mem_take hmem)).2⟩
    · rintro ⟨htested, hwanted⟩
      choose! p hp using htested
      refine ⟨_, bind_eq_ok.2 ⟨_, filterM_of_forall hp, rfl⟩, ?_⟩
      rw [take_of_length_le ((length_filter_le _ _).trans hfew), mem_filter]
      exact ⟨hn, Except.ok.inj ((hp n hn).symm.trans hwanted)⟩
  constructor
  · intro hcolons
    refine (hfinds (ofQuery_part hcolons)).2 ⟨fun m hm ↦ ?_, ?_⟩
    · obtain ⟨⟨i, hi⟩, name, hname⟩ := htexts m hm
      exact ⟨_, isWanted_part hi hname _⟩
    · obtain ⟨-, name, hname⟩ := htexts n hn
      rw [isWanted_part hid hname, Build.occursIn_self, Bool.or_true]
  · rintro before after rfl hbefore hsingle
    rw [hfinds (ofQuery_attribute hbefore hsingle)]
    constructor
    · rintro ⟨htested, hwanted⟩
      exact ⟨htested, (hasAttribute_spec hwanted).1 rfl⟩
    · rintro ⟨htested, hbears⟩
      obtain ⟨b, hb⟩ := htested n hn
      exact ⟨htested, hb.trans (congrArg Except.ok ((hasAttribute_spec hb).2 hbears))⟩

/-- A file and a function in it, each with an id of its kind. -/
def fileNode : Json := .obj [("id", "File:a.py"), ("name", "a.py"), ("node_type", "File")]

def symbolNode : Json := .obj [("id", "a.py::run"), ("name", "run"), ("node_type", "Function")]

def fileGraph : Json := .obj [("nodes", .arr [fileNode, symbolNode])]

theorem found_by_own_id_symbolNode : symbolNode ∈ [fileNode, symbolNode] ∧
    ∃ found, search fileGraph "a.py::run" .null = .ok found ∧ symbolNode ∈ found := by
  have htexts : ∀ m ∈ [fileNode, symbolNode], HasTexts m := by
    simp only [forall_mem_cons, not_mem_nil, false_implies, implies_true, and_true]
    exact ⟨⟨⟨_, rfl⟩, _, rfl⟩, ⟨⟨_, rfl⟩, _, rfl⟩⟩
  exact ⟨by simp, (found_by_own_id_iff rfl (by decide) htexts (by simp) rfl).1 (.inr (by decide))⟩

/-- The file has its id, and a search for it finds nothing. -/
theorem file_lost : nodesOf fileGraph = .ok [fileNode, symbolNode] ∧
    fileNode.member? "id" = some "File:a.py" ∧ search fileGraph "File:a.py" .null = .ok [] := by
  decide +kernel

end Graph

end CodeAtlas
