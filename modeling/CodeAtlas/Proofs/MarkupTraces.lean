import CodeAtlas.Proofs.NamedThings

/-!
# What a tag leaves behind

A rule of the mapping speaks of an attribute, on any tag or on tags of a name that meet a condition.
For a tag each rule that speaks of a value of it leaves a trace, in the order of the rules: a ticket
that tells what is the matter with the value, or a node for it and an edge that leads there. Nothing
else is done.
-/

namespace CodeAtlas.Build

open List Fallible Stepwise Json

variable {details : List (String × Json)} {s s' : Sketch} {kind value : String} {expression : Json}

namespace Sketch

/-- What counts as taken is there. -/
structure Consistent (s : Sketch) : Prop where
  nodes : ∀ id ∈ s.nodeIds, s.draft.HasId id
  edges : ∀ key source target, (key, source, target) ∈ s.edgeKeys →
    ∃ edge : Json, edge.key? = some key ∧
    .obj [("edge", edge), ("from", .str source), ("to", .str target)] ∈ s.draft.edges

lemma consistent_start (issued : Nat) : Consistent { draft := { issued } } :=
  ⟨fun _ h ↦ (by cases h), fun _ _ _ h ↦ (by cases h)⟩

/-- The same file is open, nodes and edges are still there, and a node that is new has a given name.
-/
structure Grown (value : String) (s s' : Sketch) : Prop where
  nodes : ∃ new, s'.draft.nodes = s.draft.nodes ++ new ∧
    ∀ n ∈ new, n.member? "name" = some (.str value)
  edges : s.draft.edges <+: s'.draft.edges
  file : s'.file = s.file
  fileId : s'.fileId = s.fileId

lemma Grown.trans {t u : Sketch} (h : Grown value s t) (h' : Grown value t u) :
    Grown value s u := by
  obtain ⟨new, hnew, hnames⟩ := h.nodes
  obtain ⟨more, hmore, hnames'⟩ := h'.nodes
  refine ⟨⟨new ++ more, by rw [hmore, hnew, append_assoc], ?_⟩, h.edges.trans h'.edges,
    h'.file.trans h.file, h'.fileId.trans h.fileId⟩
  exact forall_mem_append.2 ⟨hnames, hnames'⟩

lemma grown_of_nodes (value : String) (hnodes : s'.draft.nodes = s.draft.nodes)
    (hedges : s.draft.edges <+: s'.draft.edges) (hfile : s'.file = s.file)
    (hfileId : s'.fileId = s.fileId) : Grown value s s' :=
  ⟨⟨[], by rw [hnodes, append_nil], by simp⟩, hedges, hfile, hfileId⟩

/-- A sketch with no more than perhaps a node of a name. -/
structure NodeAdded (value : String) (s s' : Sketch) : Prop extends Grown value s s' where
  sameEdges : s'.draft.edges = s.draft.edges
  tickets : s'.draft.ambiguities = s.draft.ambiguities

lemma NodeAdded.refl (value : String) (s : Sketch) : NodeAdded value s s :=
  ⟨grown_of_nodes value rfl (prefix_refl _) rfl rfl, rfl, rfl⟩

lemma Consistent.addNode (h : s.Consistent) (type : Json) (value id confidence : String)
    (hdetails : AreDetails details) : (s.addNode type value id confidence details).Consistent ∧
      (s.addNode type value id confidence details).draft.HasId id ∧
      NodeAdded value s (s.addNode type value id confidence details) := by
  rw [Sketch.addNode]
  split
  next htaken =>
    exact ⟨h, h.nodes id (contains_iff_mem.1 htaken), .refl value s⟩
  next =>
    have hid :
        Draft.HasId (s.draft.addNode (nodeDocument type value id confidence details)) id := by
      refine ⟨_, mem_append_right _ mem_cons_self, ?_⟩
      rw [member?_nodeDocument hdetails (by simp)]
      rfl
    refine ⟨⟨fun other hother ↦ ?_, h.edges⟩, hid,
      ⟨⟨_, rfl, fun n hn ↦ ?_⟩, prefix_refl _, rfl, rfl⟩, rfl, rfl⟩
    · rcases mem_cons.1 hother with rfl | hother
      · exact hid
      · exact (h.nodes other hother).addNode _
    · obtain rfl := mem_singleton.1 hn
      rw [member?_nodeDocument hdetails (by simp)]
      rfl

/-- A sketch with one ticket about the file more. -/
def Ticketed (kind : String) (expression : Json) (s s' : Sketch) : Prop :=
  ∃ (t : Ticket) (resolver : Json), t.kind = kind ∧ t.expression = expression ∧
    t.file = s.fileJson ∧
    t.scope = s.fileJson ∧ s' = { s with draft := s.draft.issue.addTicket t resolver }

lemma Consistent.opened (h : s.Consistent) (fileKind name confidence : String)
    (hdetails : AreDetails details) : (s.opened fileKind name confidence details).Consistent := by
  have hopen : Consistent { s with file := some name } := ⟨h.nodes, h.edges⟩
  obtain ⟨hnode, -⟩ := hopen.addNode fileKind name name confidence hdetails
  exact ⟨hnode.nodes, hnode.edges⟩

lemma Ticketed.consistent (h : Ticketed kind expression s s') (hs : s.Consistent) :
    s'.Consistent := by
  obtain ⟨t, resolver, -, -, -, -, rfl⟩ := h
  exact ⟨hs.nodes, hs.edges⟩

lemma ends_emitTicket (o : Outline) (kind : String) (expression : Json) (reason confidence : String)
    (s : Sketch) : Ends (∃ resolver, resolverOf o.instructions = .ok resolver)
      (emitTicket o kind expression reason s.fileJson confidence) s
      fun _ s' ↦ Ticketed kind expression s s' := by
  refine .modify_bind (.lift_bind id fun resolver _ ↦ ?_)
  exact .of_modify ⟨_, resolver, rfl, rfl, rfl, rfl, rfl⟩

/-- An edge is there, whether it has been added or was there before. -/
structure Linked (edge : Json) (source target : String) (s s' : Sketch) : Prop where
  grown : ∀ value, Grown value s s'
  nodes : s'.draft.nodes = s.draft.nodes
  tickets : s'.draft.ambiguities = s.draft.ambiguities
  consistent : s'.Consistent
  edge : ∃ edge' : Json, edge'.key? = edge.key? ∧
    .obj [("edge", edge'), ("from", .str source), ("to", .str target)] ∈ s'.draft.edges

/-- All that can be asked about an edge has an answer. -/
structure Legible (o : Outline) (edge sourceType targetType : Json) : Prop where
  key : ∃ key, edge.key? = some key
  rule : ∃ allowed, o.rules.allows edge sourceType targetType = .ok allowed
  resolver : ∃ resolver, resolverOf o.instructions = .ok resolver

/-- The mapping names the kind of an edge, and the schema allows it. -/
structure Permitted (o : Outline) (edge sourceType targetType : Json) (key : Key) : Prop where
  keyed : edge.key? = some key
  known : key ∈ o.known
  allowed : o.rules.allows edge sourceType targetType = .ok true

/-- What asking for an edge comes to: a ticket if it is not permitted, and no more than the edge if
it is. -/
inductive Asked (o : Outline) (edge : Json) (source target : String) (sourceType targetType : Json)
    (s : Sketch) : Sketch → Prop
  | refused {key : Key} {kind : String} {expression : Json} {s' : Sketch}
      (hkey : edge.key? = some key)
      (hgate : key ∉ o.known ∨ o.rules.allows edge sourceType targetType = .ok false)
      (hkind : kind ∈ ["mapping_violation", "schema_violation"])
      (h : Ticketed kind expression s s') : Asked o edge source target sourceType targetType s s'
  | there {key : Key} (h : Permitted o edge sourceType targetType key)
      (hthere : (key, source, target) ∈ s.edgeKeys) :
      Asked o edge source target sourceType targetType s s
  | added {key : Key} (h : Permitted o edge sourceType targetType key)
      (hnew : (key, source, target) ∉ s.edgeKeys) :
      Asked o edge source target sourceType targetType s
        { s with
          draft := s.draft.addEdge
            (.obj [("edge", edge), ("from", .str source), ("to", .str target)])
          edgeKeys := (key, source, target) :: s.edgeKeys }

lemma ends_asked (o : Outline) (edge : Json) (source target : String) (sourceType targetType : Json)
    (s : Sketch) : Ends (Legible o edge sourceType targetType)
      (emitEdge o edge source target sourceType targetType) s fun _ s' ↦
        Asked o edge source target sourceType targetType s s' := by
  refine .lift_bind (fun h ↦ h.key.imp fun _ ↦ key_eq_ok.2) fun key hkey ↦ .get_bind ?_
  rw [key_eq_ok] at hkey
  split
  next hunknown =>
    exact (ends_emitTicket o _ _ _ _ s).imp (fun h ↦ h.resolver) fun _ _ _ h ↦
      .refused hkey (.inl (by simpa using hunknown)) (by simp) h
  next hknown =>
    refine .lift_bind (fun h ↦ h.rule) fun allowed hallowed ↦ ?_
    split
    next hno =>
      obtain rfl : allowed = false := by simpa using hno
      exact (ends_emitTicket o _ _ _ _ s).imp (fun h ↦ h.resolver) fun _ _ _ h ↦
        .refused hkey (.inr hallowed) (by simp) h
    next hyes =>
      obtain rfl : allowed = true := by simpa using hyes
      have hpermitted : Permitted o edge sourceType targetType key :=
        ⟨hkey, by simpa using hknown, hallowed⟩
      split
      next hnew => exact .of_modify (.added hpermitted (by simpa using hnew))
      next hthere => exact .pure (.there hpermitted (by simpa using hthere))

lemma Asked.ticketed_or_linked {o : Outline} {edge sourceType targetType : Json}
    {source target : String}
    (h : Asked o edge source target sourceType targetType s s') (hs : s.Consistent) :
    (∃ kind ∈ ["mapping_violation", "schema_violation"],
      ∃ expression, Ticketed kind expression s s') ∨ Linked edge source target s s' := by
  cases h with
  | refused _ _ hkind h => exact .inl ⟨_, hkind, _, h⟩
  | there h hthere =>
    obtain ⟨edge', hedge', hmem⟩ := hs.edges _ source target hthere
    exact .inr ⟨fun value ↦ grown_of_nodes value rfl (prefix_refl _) rfl rfl, rfl, rfl, hs, edge',
      hedge'.trans h.keyed.symm, hmem⟩
  | added h =>
    refine .inr ⟨fun value ↦ grown_of_nodes value rfl ⟨_, rfl⟩ rfl rfl, rfl, rfl,
      ⟨hs.nodes, ?_⟩, edge, rfl, mem_append_right _ mem_cons_self⟩
    intro key' a b hmem
    rcases mem_cons.1 hmem with heq | hmem
    · cases heq
      exact ⟨edge, h.keyed, mem_append_right _ mem_cons_self⟩
    · obtain ⟨edge', hedge', hthere⟩ := hs.edges key' a b hmem
      exact ⟨edge', hedge', mem_append_left _ hthere⟩

end Sketch

namespace MarkupGraph

open Sketch
open Markup (Tag)

variable {rule : Json} {is : List (Json × String)} {tag : Tag}

/-- The value of an attribute: that of the last of its name that has one. -/
def lastValue? (tag : Tag) (name : String) : Option String :=
  tag.attributes.reverse.findSome? fun a ↦ if a.name = name then a.value else none

lemma get?_valued (tag : Tag) (name : String) : (valued tag).get? name = lastValue? tag name := by
  obtain ⟨-, attributes, -⟩ := tag
  rw [valued, lastValue?]
  induction attributes using reverseRecOn with
  | nil => rfl
  | append_singleton attributes a ih =>
    rw [filterMap_append, reverse_append, reverse_singleton, singleton_append, findSome?_cons]
    cases hvalue : a.value with
    | none => simpa [hvalue] using ih
    | some value =>
      have hlast : [a].filterMap (fun a ↦ a.value.map fun v ↦ (a.name, v)) = [(a.name, value)] := by
        simp [hvalue]
      rw [hlast, Table.ofList_concat, Table.get?_put, ih]
      by_cases hname : name = a.name
      · simp [hname]
      · simp [hname, Ne.symm hname]

def valueFor? (tag : Tag) (rule : Json) : Option String :=
  ((rule.member? "attribute").bind Json.asStr?).bind (lastValue? tag)

/-- Whether a tag meets the condition of a rule, if it has one. -/
def isMet (tag : Tag) (rule : Json) : Bool :=
  match rule.member? "condition" with
  | some (.obj members) => members.all (meets (valued tag))
  | _ => true

def attributeRules (mapping : Json) : List Json :=
  itemsOf ((mapping.member? "attribute_interactions").getD (.arr []))

def tagRules (mapping : Json) (name : String) : List Json :=
  itemsOf ((((mapping.member? "tag_interactions").getD (.obj [])).member? name).getD (.arr []))

/-- A rule with the value that it speaks of, if there is one. -/
def spoken (tag : Tag) (rule : Json) : List (Json × String) :=
  (valueFor? tag rule).toList.map (rule, ·)

/-- What is spoken of on a tag, in the order of the rules. -/
def hits (mapping : Json) (tag : Tag) : List (Json × String) :=
  (attributeRules mapping).flatMap (spoken tag) ++
    (tagRules mapping tag.name).flatMap fun rule ↦ if isMet tag rule then spoken tag rule else []

lemma valueFor?_of_ok {value? : Option String} (h : ruledValue? (valued tag) rule = .ok value?) :
    valueFor? tag rule = value? := by
  simp only [ruledValue?, bind_eq_ok, need_eq_ok, key_eq_ok] at h
  obtain ⟨spoken, hspoken, key, hkey, h⟩ := h
  rw [valueFor?, hspoken]
  cases key with
  | str name =>
    obtain rfl := key?_eq_str.1 hkey
    obtain rfl := pure_eq_ok.1 h
    exact (get?_valued tag name).symm
  | _ =>
    obtain rfl := pure_eq_ok.1 h
    cases spoken with
    | str name => cases hkey
    | _ => rfl

lemma isMet_of_ok {holds : Bool} (h : conditionHolds (valued tag) rule = .ok holds) :
    isMet tag rule = holds := by
  simp only [conditionHolds, bind_eq_ok, get_eq_ok] at h
  obtain ⟨condition, ⟨-, hcondition⟩, h⟩ := h
  rw [isMet]
  cases hmember : rule.member? "condition" with
  | none =>
    rw [hmember] at hcondition
    subst hcondition
    exact pure_eq_ok.1 h
  | some given =>
    rw [hmember] at hcondition
    obtain rfl : given = condition := hcondition
    split at h
    next htrue =>
      obtain ⟨members, hmembers, h⟩ := bind_eq_ok.1 h
      cases given with
      | obj m =>
        exact pure_eq_ok.1 h
      | _ => cases hmembers
    next hfalse =>
      obtain rfl := pure_eq_ok.1 h
      cases given with
      | obj m =>
        cases m with
        | nil => rfl
        | cons => exact absurd rfl hfalse
      | _ => rfl

/-- Whether a value has a mark of a template expression in it. -/
def isMarked (setup : Setup) (value : String) : Bool :=
  (itemsOf setup.marks).any fun mark ↦ mark.asStr?.any (Text.occursIn · value)

lemma isSome_of_markIn? {marks : List Json} {mark? : Option String}
    (h : markIn? value marks = .ok mark?) :
    (marks.any fun mark ↦ mark.asStr?.any (Text.occursIn · value)) = mark?.isSome := by
  induction marks with
  | nil =>
    cases h
    rfl
  | cons mark rest ih =>
    obtain ⟨held, hheld, h⟩ := bind_eq_ok.1 h
    cases mark with
    | str m =>
      obtain rfl : Text.occursIn m value = held := Except.ok.inj hheld
      cases hin : Text.occursIn m value with
      | true =>
        rw [hin] at h
        obtain rfl := pure_eq_ok.1 h
        simp [asStr?, hin]
      | false =>
        rw [hin] at h
        simpa [asStr?, hin] using ih h
    | _ => cases hheld

/-- A ticket tells what is the matter with a value. -/
def Explains (setup : Setup) (value kind : String) (expression : Json) : Prop :=
  if isMarked setup value then kind = "dynamic_value_unresolved" ∧ expression = .str value
  else if isExternal value then kind = "external_reference_unmodeled" ∧ expression = .str value
  else kind = "mapping_violation" ∨ kind = "schema_violation"

/-- The trace that a value leaves under a rule. -/
inductive Trace (setup : Setup) (hit : Json × String) (s s' : Sketch) : Prop
  /-- One ticket more, about the file, and no edge. -/
  | ticket {t : Ticket} {number : Nat} {resolver : Json}
      (h : s'.draft.ambiguities = s.draft.ambiguities ++ [t.document number resolver])
      (hfile : t.file = s.fileJson) (hscope : t.scope = s.fileJson)
      (hkind : Explains setup hit.2 t.kind t.expression) (hedges : s'.draft.edges = s.draft.edges)
  /-- A node of the kind that the rule tells, an edge to it from the file, and no ticket. -/
  | link {type edge edge' : Json} (hmarked : isMarked setup hit.2 = false)
      (hinside : isExternal hit.2 = false) (htype : hit.1.member? "target_node_type" = some type)
      (hedge : hit.1.member? "emits_edge" = some edge) (hsame : edge'.key? = edge.key?)
      (hnode : s'.draft.HasId (s.idFor "Template" type hit.2))
      (hthere : .obj [("edge", edge'), ("from", .str (s.fileId.getD "")),
        ("to", .str (s.idFor "Template" type hit.2))] ∈ s'.draft.edges)
      (htickets : s'.draft.ambiguities = s.draft.ambiguities)

/-- What becomes of a sketch by a value under a rule. -/
structure Leaves (setup : Setup) (hit : Json × String) (s s' : Sketch) :
    Prop extends Grown hit.2 s s' where
  trace : Trace setup hit s s'
  /-- A value with a mark becomes no node. -/
  marked : isMarked setup hit.2 = true → s'.draft.nodes = s.draft.nodes

/-- A rule that names an attribute, a kind of nodes and a kind of edges, and has members for a
condition if it has one. -/
def isUsable (rule : Json) : Bool :=
  (["attribute", "target_node_type", "emits_edge"].all fun key ↦
    ((rule.member? key).bind Json.asStr?).isSome) &&
  match rule.member? "condition" with
  | none | some .null | some (.obj _) => true
  | _ => false

/-- A setup whose documents are of the form that is asked for. -/
structure Setup.Orderly (setup : Setup) : Prop where
  marks : ∃ marks : List String, setup.marks = .arr (marks.map Json.str)
  attributes : ∃ rules, setup.outline.mapping.getD "attribute_interactions" (.arr []) =
    .ok (.arr rules)
  tags : ∃ members, setup.outline.mapping.getD "tag_interactions" (.obj []) = .ok (.obj members) ∧
    ∀ e ∈ members, e.2 = .arr e.2.items
  rules : ∀ rule ∈ rulesOf setup.outline.mapping, isUsable rule = true
  schema : ∀ e ∈ setup.outline.rules, isTextual e.2 = true
  resolver : ∃ resolver, resolverOf setup.outline.instructions = .ok resolver

lemma exists_text_of_isUsable (h : isUsable rule = true) (key : String)
    (hkey : key ∈ ["attribute", "target_node_type", "emits_edge"]) :
    ∃ text, rule.member? key = some (.str text) := by
  rw [isUsable, Bool.and_eq_true] at h
  obtain ⟨text, htext⟩ := Option.isSome_iff_exists.1 (all_eq_true.1 h.1 key hkey)
  obtain ⟨v, hv, htext⟩ := Option.bind_eq_some_iff.1 htext
  cases v with
  | str text => exact ⟨text, hv⟩
  | _ => cases htext

lemma exists_markIn? (value : String) (marks : List String) :
    ∃ mark?, markIn? value (marks.map str) = .ok mark? := by
  induction marks with
  | nil => exact ⟨none, rfl⟩
  | cons mark rest ih =>
    rw [map_cons, markIn?]
    cases hin : Text.occursIn mark value with
    | true => exact ⟨_, by simp only [holds, hin]; rfl⟩
    | false =>
      simp only [holds, hin]
      exact ih

variable {setup : Setup}

/-- A step that leaves what a value leaves, as long as what counts as taken is there. -/
def Steps (setup : Setup) (hit : Json × String) (s s' : Sketch) : Prop :=
  s.Consistent → s'.Consistent ∧ Leaves setup hit s s'

lemma leaves_of_ticketed {named : Sketch} (hnamed : NodeAdded value s named)
    (h : Ticketed kind expression named s')
    (hmarked : isMarked setup value = true → named.draft.nodes = s.draft.nodes)
    (hkind : Explains setup value kind expression) : Leaves setup (rule, value) s s' := by
  obtain ⟨t, resolver, rfl, rfl, hfile, hscope, rfl⟩ := h
  have hjson : named.fileJson = s.fileJson := by rw [fileJson, fileJson, hnamed.file]
  have hticket : named.draft.ambiguities ++ [t.document (named.draft.issued + 1) resolver] =
      s.draft.ambiguities ++ [t.document (named.draft.issued + 1) resolver] :=
      by rw [hnamed.tickets]
  exact ⟨hnamed.toGrown.trans (grown_of_nodes value rfl (prefix_refl _) rfl rfl),
    .ticket hticket (hfile.trans hjson) (hscope.trans hjson) hkind hnamed.sameEdges, hmarked⟩

lemma ends_nameThing {type edge : Json} {confidence : String} (hdetails : AreDetails details)
    (hmarked : isMarked setup value = false) (hinside : isExternal value = false)
    (htype : rule.member? "target_node_type" = some type)
    (hedge : rule.member? "emits_edge" = some edge) : Ends (setup.Orderly ∧ isUsable rule = true)
      (nameThing setup.outline "Template" type value confidence details (.ok (some edge))) s
      fun _ s' ↦ Steps setup (rule, value) s s' := by
  have hmarked' {P : Prop} (h : isMarked setup value = true) : P := by
    rw [hmarked] at h
    cases h
  refine .get_bind (.modify_bind (.get_bind ((ends_asked _ _ _ _ _ _ _).imp (fun h ↦ ?_) ?_)))
  · obtain ⟨kind, hkind⟩ := exists_text_of_isUsable h.2 "target_node_type" (by simp)
    obtain ⟨name, hname⟩ := exists_text_of_isUsable h.2 "emits_edge" (by simp)
    obtain rfl := Option.some.inj (hedge.symm.trans hname)
    exact ⟨⟨_, rfl⟩, ⟨_, allows_eq h.1.schema name _ _⟩, h.1.resolver⟩
  · intro _ s' _ h hs
    obtain ⟨hconsistent, hid, hnamed⟩ :=
      hs.addNode type value (s.idFor "Template" type value) confidence hdetails
    rcases h.ticketed_or_linked hconsistent with ⟨kind, hkind, expression, h⟩ | hlinked
    · refine ⟨h.consistent hconsistent, leaves_of_ticketed hnamed h hmarked' ?_⟩
      simpa [Explains, hmarked, hinside] using hkind
    · obtain ⟨edge', hsame, hthere⟩ := hlinked.edge
      rw [hnamed.fileId] at hthere
      have hid : s'.draft.HasId (s.idFor "Template" type value) := by
        rw [Draft.HasId, hlinked.nodes]
        exact hid
      exact ⟨hlinked.consistent, hnamed.toGrown.trans (hlinked.grown value),
        .link hmarked hinside htype hedge hsame hid hthere (hlinked.tickets.trans hnamed.tickets),
        hmarked'⟩

lemma ends_emitValue (value : String) (line : Nat) (around : Json) (s : Sketch) :
    Ends (setup.Orderly ∧ isUsable rule = true) (emitValue setup rule value line around) s
      fun _ s' ↦ Steps setup (rule, value) s s' := by
  refine .lift_bind (fun h ↦ ?_) fun marks hmarks ↦ .lift_bind (fun h ↦ ?_) fun mark? hmark ↦ ?_
  · obtain ⟨marks, hmarks⟩ := h.1.marks
    exact ⟨_, by rw [hmarks]; rfl⟩
  · obtain ⟨texts, htexts⟩ := h.1.marks
    rw [htexts] at hmarks
    cases hmarks
    exact exists_markIn? value texts
  · have hmarked : isMarked setup value = mark?.isSome := by
      rw [isMarked, itemsOf, hmarks]
      exact isSome_of_markIn? hmark
    cases mark? with
    | some mark =>
      refine .get_bind ((ends_emitTicket _ _ _ _ _ s).imp (fun h ↦ h.1.resolver)
        fun _ s' _ h hs ↦ ?_)
      exact ⟨h.consistent hs, leaves_of_ticketed (.refl value s) h (fun _ ↦ rfl)
        (by simp [Explains, hmarked])⟩
    | none =>
      dsimp only
      split
      next hout =>
        refine .get_bind ((ends_emitTicket _ _ _ _ _ s).imp (fun h ↦ h.1.resolver)
          fun _ s' _ h hs ↦ ?_)
        refine ⟨h.consistent hs, leaves_of_ticketed (.refl value s) h (fun _ ↦ rfl) ?_⟩
        simp [Explains, hmarked, hout]
      next hin =>
        refine .lift_bind (fun h ↦ ?_) fun type htype ↦ .lift_bind (fun h ↦ ?_) fun edge hedge ↦ ?_
        · obtain ⟨text, htext⟩ := exists_text_of_isUsable h.2 "target_node_type" (by simp)
          exact ⟨_, need_eq_ok.2 htext⟩
        · obtain ⟨text, htext⟩ := exists_text_of_isUsable h.2 "emits_edge" (by simp)
          exact ⟨_, need_eq_ok.2 htext⟩
        · rw [need_eq_ok] at htype hedge
          rw [emitNode, emitNode_bind_linkTo]
          exact ends_nameThing (by simp [AreDetails, Table.keys]) hmarked
            (by simpa using hin) htype hedge

/-- A round over the rules, which does what is to be done about the value that the rule speaks of.
-/
lemma ends_rule {body : Option String → Sketching (ForInStep PUnit)}
    (hsome : ∀ value, body (some value) = do
      emitValue setup rule value tag.line (surroundings tag.name (valued tag))
      return .yield ⟨⟩) (hnone : body none = pure (.yield ⟨⟩))
    (hrule : rule ∈ rulesOf setup.outline.mapping) (s : Sketch) :
    Ends setup.Orderly ((liftM (ruledValue? (valued tag) rule) : Sketching _) >>= body) s
      fun r s' ↦ r = .yield ⟨⟩ ∧ Through (Steps setup) (spoken tag rule) s s' := by
  refine .lift_bind (fun h ↦ ?_) fun value? hvalue ↦ ?_
  · obtain ⟨name, hname⟩ := exists_text_of_isUsable (h.rules rule hrule) "attribute" (by simp)
    exact ⟨_, by rw [ruledValue?, need_eq_ok.2 hname]; rfl⟩
  · rw [spoken, valueFor?_of_ok hvalue]
    cases value? with
    | some value =>
      rw [hsome]
      refine .bind ((ends_emitValue value _ _ s).imp (fun h ↦ ⟨h, h.rules rule hrule⟩)
        fun _ _ _ h ↦ h) ?_
      exact fun _ s' _ h ↦ .pure ⟨rfl, .cons h (.nil s')⟩
    | none =>
      rw [hnone]
      exact .pure ⟨rfl, .nil s⟩

lemma exists_conditionHolds (h : isUsable rule = true) (attributes : Table String String) :
    ∃ holds, conditionHolds attributes rule = .ok holds := by
  obtain ⟨name, hname⟩ := exists_text_of_isUsable h "attribute" (by simp)
  rw [isUsable, Bool.and_eq_true] at h
  obtain ⟨condition, hcondition⟩ : ∃ condition, rule.get "condition" = .ok condition ∧
      (condition = .null ∨ ∃ members, condition = .obj members) := by
    refine ⟨_, get_eq_ok.2 ⟨isObject_of_member? hname, rfl⟩, ?_⟩
    cases hmember : rule.member? "condition" with
    | none => exact .inl rfl
    | some given =>
      rw [hmember] at h
      cases given with
      | null => exact .inl rfl
      | obj members => exact .inr ⟨members, rfl⟩
      | _ => cases h.2
  rw [conditionHolds, hcondition.1]
  rcases hcondition.2 with rfl | ⟨members, rfl⟩
  · exact ⟨true, rfl⟩
  · simp only [bind, Except.bind]
    split <;> exact ⟨_, rfl⟩

lemma ends_visitTag (tag : Tag) (s : Sketch) : Ends setup.Orderly (visitTag setup tag) s
    fun _ s' ↦ Through (Steps setup) (hits setup.outline.mapping tag) s s' := by
  refine .lift_bind (fun h ↦ ?_) fun v hv ↦ .lift_bind (fun h ↦ ?_) fun rules hrules ↦ ?_
  · obtain ⟨rules, hlist⟩ := h.attributes
    exact ⟨_, hlist⟩
  · obtain ⟨rules, hlist⟩ := h.attributes
    cases hv.symm.trans hlist
    exact ⟨rules, rfl⟩
  have hattributes : attributeRules setup.outline.mapping = rules := by
    rw [attributeRules, (getD_eq_ok.1 hv).2, itemsOf, hrules]
    rfl
  refine .bind (Ends.forIn (fun rule hrule s ↦
    ends_rule (fun _ ↦ rfl) rfl (mem_rulesOf_of_attribute hv hrules hrule) s) s)
    fun _ t _ hfirst ↦ ?_
  rw [hits, hattributes]
  refine .lift_bind (fun h ↦ ?_) fun byTag hbyTag ↦ ?_
  · obtain ⟨members, hmembers, -⟩ := h.tags
    exact ⟨_, hmembers⟩
  have hmembers (h : setup.Orderly) : ∃ members, byTag = .obj members ∧
      ∀ e ∈ members, e.2 = .arr e.2.items := by
    obtain ⟨members, hmembers, hlists⟩ := h.tags
    exact ⟨members, Except.ok.inj (hbyTag.symm.trans hmembers), hlists⟩
  have htags : tagRules setup.outline.mapping tag.name =
      itemsOf ((byTag.member? tag.name).getD (.arr [])) := by
    rw [tagRules, (getD_eq_ok.1 hbyTag).2]
  refine .lift_bind (fun h ↦ ?_) fun held hheld ↦ ?_
  · obtain ⟨members, rfl, -⟩ := hmembers h
    exact ⟨_, rfl⟩
  split
  next htrue =>
    refine .lift_bind (fun h ↦ ?_) fun w hw ↦ .lift_bind (fun h ↦ ?_) fun rules' hrules' ↦ ?_
    · obtain ⟨members, rfl, -⟩ := hmembers h
      obtain ⟨w, hw⟩ := Option.isSome_iff_exists.1 ((Except.ok.inj hheld).trans htrue)
      exact ⟨w, need_eq_ok.2 hw⟩
    · obtain ⟨members, rfl, hlists⟩ := hmembers h
      have hlist : w = .arr w.items := hlists _ (Table.mem_of_get? (need_eq_ok.1 hw))
      exact ⟨_, by rw [hlist]; rfl⟩
    rw [htags, need_eq_ok.1 hw, Option.getD_some, itemsOf, hrules']
    refine .bind (Ends.forIn (fun rule hrule s ↦ ?_) t) fun _ _ _ hrest ↦
      .pure (hfirst.append hrest)
    have hmem := mem_rulesOf_of_tag hbyTag hw hrules' hrule
    refine .lift_bind (fun h ↦ exists_conditionHolds (h.rules rule hmem) _) fun holds hholds ↦ ?_
    rw [isMet_of_ok hholds]
    split
    · exact ends_rule (fun _ ↦ rfl) rfl hmem s
    · exact .pure ⟨rfl, .nil s⟩
  next hfalse =>
    rw [htags, member?_of_holds (hheld.trans (congrArg _ (Bool.eq_false_iff.2 hfalse)))]
    exact .pure ((append_nil _).symm ▸ hfirst)

lemma leaves_of_steps (h : Through (Steps setup) is s s') (hs : s.Consistent) :
    s'.Consistent ∧ Through (Leaves setup) is s s' :=
  h.imp (fun _ _ _ hs hstep ↦ hstep hs) hs

lemma prefix_of_leaves (h : Through (Leaves setup) is s s') :
    s.draft.nodes <+: s'.draft.nodes ∧ s.draft.edges <+: s'.draft.edges := by
  induction h with
  | nil => exact ⟨prefix_refl _, prefix_refl _⟩
  | cons hstep _ ih =>
    obtain ⟨new, hnew, -⟩ := hstep.nodes
    exact ⟨.trans ⟨new, hnew.symm⟩ ih.1, hstep.edges.trans ih.2⟩

/-- A tag leaves, one after the other, what each value leaves that a rule speaks of: that of an
attribute on any tag, or of one on tags of its name whose condition it meets. Nodes and edges that
were there stay as they are. Under documents of the form that is asked for it does come to its end.
-/
theorem tag_leaves_traces (setup : Setup) (tag : Tag) {s : Sketch} (hs : s.Consistent) :
    (∀ s', visitTag setup tag s = .ok () s' →
      Through (Leaves setup) (hits setup.outline.mapping tag) s s' ∧ s'.Consistent ∧
        s.draft.nodes <+: s'.draft.nodes ∧ s.draft.edges <+: s'.draft.edges) ∧
    (setup.Orderly → ∃ s', visitTag setup tag s = .ok () s') := by
  have hwalk : Ends setup.Orderly _ s _ := ends_visitTag tag s
  refine ⟨fun s' hrun ↦ ?_, fun h ↦ ?_⟩
  · obtain ⟨hconsistent, hthrough⟩ := leaves_of_steps (hwalk.1 () s' hrun) hs
    obtain ⟨hnodes, hedges⟩ := prefix_of_leaves hthrough
    exact ⟨hthrough, hconsistent, hnodes, hedges⟩
  · obtain ⟨_, s', hrun⟩ := hwalk.2 h
    exact ⟨s', hrun⟩

/-- The setup that the documents of the builder give. -/
def markupSetup : Setup where
  outline :=
    { instructions := Catalog.htmlInstructions
      mapping := Catalog.htmlMapping
      rules := coreRules
      known := (knownEdgesOf Catalog.htmlMapping).toOption.getD []
      unknownReason := fun edge ↦ s!"Edge type '{edge}' not defined in mapping" }
  marks := .arr ["\x7b\x7b \x7d\x7d", "\x7b% %\x7d"]

lemma ofDocuments_markupSetup :
    Setup.ofDocuments Catalog.htmlInstructions Catalog.htmlMapping coreRules = .ok markupSetup :=
    rfl

/-- Under the mapping of the builder only the instructions can be out of order. -/
lemma orderly_of_mapping (hmapping : setup.outline.mapping = Catalog.htmlMapping)
    (hrules : setup.outline.rules = coreRules)
    (hmarks : ∃ marks : List String, setup.marks = .arr (marks.map str))
    (hresolver : ∃ resolver, resolverOf setup.outline.instructions = .ok resolver) :
    setup.Orderly where
  marks := hmarks
  attributes := by
    rw [hmapping]
    exact ⟨_, rfl⟩
  tags := by
    rw [hmapping]
    exact ⟨_, rfl, by decide⟩
  rules := by
    rw [hmapping]
    exact all_eq_true.1 (by decide)
  schema := by
    rw [hrules]
    exact isTextual_coreRules
  resolver := hresolver

lemma orderly_markupSetup : markupSetup.Orderly :=
  orderly_of_mapping rfl rfl ⟨["\x7b\x7b \x7d\x7d", "\x7b% %\x7d"], rfl⟩ ⟨_, rfl⟩

def pageSketch : Sketch := Sketch.opened {} "Template" "a.html" "structural" []

/-- A link to a cart, with its target told twice, and a request to another place. -/
def cartTag : Tag :=
  ⟨"a", [⟨"href", some "/shop"⟩, ⟨"hx-get", some "//cart"⟩, ⟨"href", some "/cart"⟩, ⟨"href", none⟩],
    3⟩

theorem tag_leaves_traces_cart : pageSketch.Consistent ∧ markupSetup.Orderly ∧
    (hits Catalog.htmlMapping cartTag).map Prod.snd = ["//cart", "/cart"] ∧
    ∃ s', visitTag markupSetup cartTag pageSketch = .ok () s' ∧
      Through (Leaves markupSetup) (hits Catalog.htmlMapping cartTag) pageSketch s' := by
  have hpage : pageSketch.Consistent :=
    (consistent_start 0).opened "Template" "a.html" "structural" (by simp [AreDetails, Table.keys])
  obtain ⟨hleaves, hends⟩ := tag_leaves_traces markupSetup cartTag hpage
  obtain ⟨s', hrun⟩ := hends orderly_markupSetup
  exact ⟨hpage, orderly_markupSetup, by decide +kernel, s', hrun, (hleaves s' hrun).1⟩

end MarkupGraph

end CodeAtlas.Build
