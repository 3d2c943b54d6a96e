import CodeAtlas.Build.Draft
import CodeAtlas.Catalog.Documents
import CodeAtlas.Proofs.Conforming

/-!
# Graphs that were built

A builder names every node, and adds an edge only between nodes that are named and where the core
schema allows it. The check looks at a finished graph and knows every node by its id, so that of
several nodes of one id the last one counts. A graph that was built passes the check just if its
edges are allowed between the kinds that count in the end; and it always does if no id has nodes of
two kinds.
-/

namespace CodeAtlas.Build

open Fallible CodeAtlas.Graph CodeAtlas.Graph.Conformance List Json

variable {rules : EdgeRules} {nodes : List Json} {rule : Json}
variable {d : Draft} {id kind source target : String} {n : Json}

def coreRules : EdgeRules := (EdgeRules.ofDocument Catalog.coreEdges).toOption.getD []

lemma ofDocument_coreEdges : EdgeRules.ofDocument Catalog.coreEdges = .ok coreRules := rfl

lemma edgeTypesOf_coreEdges : CoreSchema.edgeTypesOf Catalog.coreEdges = .ok coreRules := rfl

def coreKinds : List String := Catalog.coreNodes.members.map Prod.fst

/-- The kinds that a rule names at one end. -/
def endsOf (rule : Json) (ending : String) : List Json :=
  match rule.member? ending with
  | some (.arr kinds) => kinds
  | _ => []

/-- Whether the core schema allows an edge between two kinds of nodes. -/
def permits (edge source target : String) : Bool :=
  match coreRules.get? edge with
  | some rule =>
    (endsOf rule "from").contains (.str source) && (endsOf rule "to").contains (.str target)
  | none => false

/-- Whether a rule lists names of kinds at both ends. -/
def isTextual (rule : Json) : Bool :=
  ["from", "to"].all fun ending ↦
    match rule.member? ending with
    | some (.arr kinds) => kinds.all fun kind ↦ kind.asStr?.isSome
    | _ => false

lemma isTextual_coreRules : ∀ e ∈ coreRules, isTextual e.2 = true := all_eq_true.1 (by decide)

lemma ends_of_isTextual (h : isTextual rule = true) {ending : String}
    (hending : ending ∈ ["from", "to"]) : rule.member? ending = some (.arr (endsOf rule ending)) ∧
      ∀ kind ∈ endsOf rule ending, ∃ name, kind = .str name := by
  have hends := all_eq_true.1 h ending hending
  split at hends
  next kinds hkinds =>
    rw [endsOf, hkinds]
    refine ⟨rfl, fun kind hkind ↦ ?_⟩
    have htext := all_eq_true.1 hends kind hkind
    cases kind with
    | str name => exact ⟨name, rfl⟩
    | _ => cases htext
  next => cases hends

lemma ruled_of_isTextual (h : isTextual rule = true) : Ruled rule := by
  intro ending hending
  obtain ⟨hends, htexts⟩ := ends_of_isTextual h hending
  refine ⟨_, _, getD_of_member? hends _, rfl, fun kind hkind ↦ ?_⟩
  obtain ⟨name, rfl⟩ := htexts kind hkind
  exact ⟨.str name, rfl⟩

lemma allows_eq (h : ∀ e ∈ rules, isTextual e.2 = true) (edge : String) (source target : Json) :
    rules.allows edge source target = .ok ((rules.get? edge).any fun rule ↦
        (endsOf rule "from").any (·.alike source) && (endsOf rule "to").any (·.alike target)) := by
  have hrule : rules.rule? edge = .ok (rules.get? edge) := rfl
  rw [EdgeRules.allows, hrule]
  cases hget : rules.get? edge with
  | none => rfl
  | some rule =>
    have htextual := h _ (Table.mem_of_get? hget)
    simp only [bind, Except.bind, Json.holds, Option.any_some,
      getD_of_member? (ends_of_isTextual htextual (mem_cons_self)).1,
      getD_of_member? (ends_of_isTextual htextual (mem_cons_of_mem _ mem_cons_self)).1]
    cases (endsOf rule "from").any (·.alike source) <;> rfl

lemma allows_iff (h : ∀ e ∈ rules, isTextual e.2 = true) {edge : String} :
    rules.allows edge source target = .ok true ↔ ∃ rule, rules.get? edge = some rule ∧
        .str source ∈ endsOf rule "from" ∧ .str target ∈ endsOf rule "to" := by
  simp [allows_eq h, alike_str, Option.any_eq_true]

lemma permits_iff {edge : String} :
    permits edge source target = true ↔ ∃ rule, coreRules.get? edge = some rule ∧
      .str source ∈ endsOf rule "from" ∧ .str target ∈ endsOf rule "to" := by
  rw [permits]
  cases coreRules.get? edge <;> simp

lemma permits_of_allows {edge : Json} (h : coreRules.allows edge source target = .ok true) :
    ∃ kind, edge = .str kind ∧ permits kind source target = true := by
  obtain ⟨rule?, hrule, hrest⟩ := bind_eq_ok.1 h
  simp only [EdgeRules.rule?, bind_eq_ok, key_eq_ok] at hrule
  obtain ⟨key, hkey, hrule⟩ := hrule
  cases key with
  | str kind =>
    obtain rfl := key?_eq_str.1 hkey
    exact ⟨kind, rfl, permits_iff.2 ((allows_iff isTextual_coreRules).1 h)⟩
  | _ =>
    obtain rfl := pure_eq_ok.1 hrule
    cases pure_eq_ok.1 hrest

/-- A node has a text for an id and a kind. -/
structure Named (n : Json) (id kind : String) : Prop where
  id : n.member? "id" = some (.str id)
  kind : n.member? "node_type" = some (.str kind)
  untyped : n.member? "type" = none

/-- An edge of a kind joins two ids. -/
structure Joins (e : Json) (kind source target : String) : Prop where
  kind : e.member? "edge" = some (.str kind)
  source : e.member? "from" = some (.str source)
  target : e.member? "to" = some (.str target)

def lastKind? (nodes : List Json) (id : String) : Option Json :=
  (nodes.reverse.find? fun n ↦ n.member? "id" = some (.str id)).bind (·.member? "node_type")

lemma lastKind?_concat (nodes : List Json) (h : Named n id kind) (other : String) :
    lastKind? (nodes ++ [n]) other = if other = id then some (.str kind)
    else lastKind? nodes other := by
  rw [lastKind?, reverse_append, reverse_singleton, singleton_append, find?_cons]
  by_cases hid : other = id
  · simp [hid, h.id, h.kind]
  · have hne : ¬id = other := fun heq ↦ hid heq.symm
    simp [h.id, hid, hne, lastKind?]

lemma ne_empty_of_mem_coreKinds (h : kind ∈ coreKinds) : kind ≠ "" := by
  rintro rfl
  exact absurd h (by decide)

namespace Named

variable {id kind : String}

lemma identifier_eq (h : Named n id kind) (hid : id ≠ "") : identifier n = .str id := by
  rw [identifier, h.id]
  exact orElse_of_truthy (truthy_str.2 hid) _

lemma kindOf_eq (h : Named n id kind) : kindOf n = .str kind := by
  rw [kindOf, h.untyped, h.kind]
  rfl

lemma legible (h : Named n id kind) (hid : id ≠ "") :
    n.IsObject ∧ keyable (identifier n) ∧ keyable (kindOf n) := by
  rw [h.identifier_eq hid, h.kindOf_eq]
  exact ⟨isObject_of_member? h.id, by simp [keyable, Json.key?], by simp [keyable, Json.key?]⟩

end Named

/-- The check knows named nodes by their ids, and of each id the last kind. -/
lemma kindUnder_of_named (h : ∀ n ∈ nodes, ∃ id kind, Named n id kind ∧ id ≠ "") (id : String) :
    kindUnder nodes (.str id) = lastKind? nodes id := by
  induction nodes using List.reverseRecOn with
  | nil => rfl
  | append_singleton nodes n ih =>
    obtain ⟨other, kind, hnamed, hother⟩ := h n (by simp)
    have hkey : (identifier n).key? = some (.str other) := by
      rw [hnamed.identifier_eq hother]
      rfl
    rw [kindUnder, lastUnder_concat _ _ hkey, lastKind?_concat nodes hnamed, hnamed.kindOf_eq,
      ← ih fun m hm ↦ h m (mem_append_left _ hm)]
    simp only [Key.str.injEq]
    rfl

namespace Joins

variable {e : Json}

lemma fields (h : Joins e kind source target) :
    field e "edge" = .str kind ∧ field e "from" = .str source ∧ field e "to" = .str target := by
  simp [field, h.kind, h.source, h.target]

lemma legible (h : Joins e kind source target) :
    e.IsObject ∧ ∀ name ∈ ["edge", "from", "to"], keyable (field e name) := by
  obtain ⟨hkind, hsource, htarget⟩ := h.fields
  refine ⟨isObject_of_member? h.kind, ?_⟩
  simp [hkind, hsource, htarget, keyable, Json.key?]

lemma edgeFits_iff (h : Joins e kind source target) (hrules : ∀ e ∈ rules, isTextual e.2 = true)
    {kind? : Key → Option Json} {A B : String} (hkind : kind ≠ "") (hsource : source ≠ "")
    (htarget : target ≠ "") (hA : kind? (.str source) = some (.str A))
    (hB : kind? (.str target) = some (.str B)) :
    EdgeFits rules.get? kind? e ↔ rules.allows kind A B = .ok true := by
  obtain ⟨hedge, hfrom, hto⟩ := h.fields
  rw [allows_iff hrules]
  cases hrule : rules.get? kind with
  | none => simp [EdgeFits, hedge, hrule]
  | some rule =>
    have hends {ending name : String} (hending : ending ∈ ["from", "to"]) :
        AdmitsKind rule ending name ↔ .str name ∈ endsOf rule ending := by
      have hlist := (ends_of_isTextual (hrules _ (Table.mem_of_get? hrule)) hending).1
      simp [AdmitsKind, getD_of_member? hlist, Json.elements]
    have hj : (field e "from").key? = some (.str source) := by rw [hfrom]; rfl
    have hk : (field e "to").key? = some (.str target) := by rw [hto]; rfl
    rw [Conformance.edgeFits_iff hedge hkind hrule (hfrom ▸ truthy_str.2 hsource)
      (hto ▸ truthy_str.2 htarget) hj hk]
    simp [hA, hB, hends]

end Joins

/-- A builder has written a node: under an id that is not empty, and of a kind of the core schema.
-/
def IsNode (n : Json) : Prop := ∃ id kind, Named n id kind ∧ id ≠ "" ∧ kind ∈ coreKinds

def IsTicket (t : Json) : Prop :=
  ∃ (ticket : Ticket) (number : Nat) (resolver : Json), t = ticket.document number resolver

lemma IsTicket.fits {t : Json} (h : IsTicket t) : TicketFits t := by
  obtain ⟨ticket, number, resolver, rfl⟩ := h
  intro name hname
  simp only [ticketFields, mem_cons, not_mem_nil, or_false] at hname
  rcases hname with rfl | rfl | rfl | rfl <;> rfl

namespace Draft

variable {e : Json}

def HasId (d : Draft) (id : String) : Prop := ∃ n ∈ d.nodes, n.member? "id" = some (.str id)

lemma HasId.addNode (h : d.HasId id) (node : Json) : (d.addNode node).HasId id := by
  obtain ⟨n, hn, hid⟩ := h
  exact ⟨n, mem_append_left _ hn, hid⟩

def HasNode (d : Draft) (id kind : String) : Prop := ∃ n ∈ d.nodes, Named n id kind

/-- An edge joins nodes of a draft of which the core schema permits it. -/
def Allowed (d : Draft) (e : Json) : Prop :=
  ∃ kind source target A B, Joins e kind source target ∧ d.HasNode source A ∧ d.HasNode target B ∧
    permits kind A B = true

/-- A draft as builders make it. -/
structure Built (d : Draft) : Prop where
  nodes : ∀ n ∈ d.nodes, IsNode n
  edges : ∀ e ∈ d.edges, d.Allowed e
  tickets : ∀ t ∈ d.ambiguities, IsTicket t

/-- An edge is permitted between the kinds that its ends have in the end. -/
def Fits (d : Draft) (e : Json) : Prop :=
  ∃ kind source target A B, Joins e kind source target ∧
    lastKind? d.nodes source = some (.str A) ∧ lastKind? d.nodes target = some (.str B) ∧
    permits kind A B = true

/-- The graph of a draft passes the check: every edge joins nodes between which it is permitted, and
no ticket lacks a field. -/
structure Passes (d : Draft) (header : List (String × Json)) (file : String) : Prop where
  report : ∃ r, Conformance.check Catalog.coreNodes coreRules file (d.document header) = .ok r ∧
    r.errors = [] ∧ r.document.member? "status" = some (.str "pass")
  edges : ∀ e ∈ d.edges, d.Fits e
  tickets : ∀ t ∈ d.ambiguities, ∀ field ∈ ticketFields, (t.member? field).isSome = true

lemma HasNode.mono {d' : Draft} (hnodes : d.nodes ⊆ d'.nodes)
    (h : d.HasNode id kind) : d'.HasNode id kind := by
  obtain ⟨n, hn, hnamed⟩ := h
  exact ⟨n, hnodes hn, hnamed⟩

lemma Allowed.mono {d' : Draft} (hnodes : d.nodes ⊆ d'.nodes) (h : d.Allowed e) : d'.Allowed e := by
  obtain ⟨kind, source, target, A, B, hjoins, hsource, htarget, hpermits⟩ := h
  exact ⟨kind, source, target, A, B, hjoins, hsource.mono hnodes, htarget.mono hnodes, hpermits⟩

lemma Fits.exists_permits {A : String} (h : d.Fits e) (hjoins : Joins e kind source target)
    (hlast : lastKind? d.nodes source = some (.str A)) :
    ∃ B, lastKind? d.nodes target = some (.str B) ∧ permits kind A B = true := by
  obtain ⟨kind', source', target', A', B, hjoins', hlast', hB, hpermits⟩ := h
  cases hjoins.kind.symm.trans hjoins'.kind
  cases hjoins.source.symm.trans hjoins'.source
  cases hjoins.target.symm.trans hjoins'.target
  cases hlast.symm.trans hlast'
  exact ⟨B, hB, hpermits⟩

/-- An edge does not fit if the kind that its source has in the end permits none. -/
lemma not_fits_of_source {A : String}
    (hjoins : Joins e kind source target) (hlast : lastKind? d.nodes source = some (.str A))
    (hnone : ∀ B, permits kind A B = false) : ¬d.Fits e := by
  intro h
  obtain ⟨B, -, hpermits⟩ := h.exists_permits hjoins hlast
  rw [hnone B] at hpermits
  cases hpermits

lemma exists_lastKind?_of_mem (hnodes : ∀ n ∈ nodes, IsNode n) (hn : n ∈ nodes)
    (hnamed : Named n id kind) :
    ∃ n' ∈ nodes, ∃ last, Named n' id last ∧ lastKind? nodes id = some (.str last) := by
  have hsome : (nodes.reverse.find? fun n ↦ n.member? "id" = some (.str id)).isSome = true := by
    rw [find?_isSome]
    exact ⟨n, mem_reverse.2 hn, decide_eq_true hnamed.id⟩
  obtain ⟨n', hfound⟩ := Option.isSome_iff_exists.1 hsome
  have hn' : n' ∈ nodes := mem_reverse.1 (mem_of_find?_eq_some hfound)
  have hid' : n'.member? "id" = some id := by
    simpa using find?_some hfound
  obtain ⟨id', last, hnamed', -, -⟩ := hnodes n' hn'
  cases hid'.symm.trans hnamed'.id
  refine ⟨n', hn', last, hnamed', ?_⟩
  rw [lastKind?, hfound, Option.bind_some, hnamed'.kind]

lemma single_of_nodup (h : (d.nodes.map (·.member? "id")).Nodup) (id A B : String)
    (hA : d.HasNode id A) (hB : d.HasNode id B) : A = B := by
  obtain ⟨n, hn, hnamed⟩ := hA
  obtain ⟨m, hm, hnamed'⟩ := hB
  obtain rfl : n = m := inj_on_of_nodup_map h hn hm (hnamed.id.trans hnamed'.id.symm)
  simpa [hnamed.kind] using hnamed'.kind

namespace Built

lemma empty (issued : Nat) : Built { issued } := ⟨by simp, by simp, by simp⟩

variable {d : Draft} (h : d.Built)
include h

lemma hasNode_ne_empty (hnode : d.HasNode id kind) : id ≠ "" := by
  obtain ⟨n, hn, hnamed⟩ := hnode
  obtain ⟨id', kind', hnamed', hid, -⟩ := h.nodes n hn
  cases hnamed.id.symm.trans hnamed'.id
  exact hid

lemma addNode (hn : IsNode n) : (d.addNode n).Built := by
  have hsub : d.nodes ⊆ (d.addNode n).nodes := subset_append_left _ _
  exact ⟨forall_mem_append.2 ⟨h.nodes, forall_mem_singleton.2 hn⟩,
    fun e he ↦ (h.edges e he).mono hsub, h.tickets⟩

lemma addEdge (he : d.Allowed e) : (d.addEdge e).Built :=
  ⟨h.nodes, forall_mem_append.2 ⟨h.edges, forall_mem_singleton.2 he⟩, h.tickets⟩

lemma addTicket (t : Ticket) (resolver : Json) : (d.addTicket t resolver).Built :=
  ⟨h.nodes, h.edges,
    forall_mem_append.2 ⟨h.tickets, forall_mem_singleton.2 ⟨t, d.issued, resolver, rfl⟩⟩⟩

lemma issue : d.issue.Built := ⟨h.nodes, h.edges, h.tickets⟩

lemma addLog (entry : Json) : (d.addLog entry).Built :=
  ⟨h.nodes, h.edges, h.tickets⟩

lemma named : ∀ n ∈ d.nodes, ∃ id kind, Named n id kind ∧ id ≠ "" := by
  intro n hn
  obtain ⟨id, kind, hnamed, hid, -⟩ := h.nodes n hn
  exact ⟨id, kind, hnamed, hid⟩

lemma legible : Legible d.nodes d.edges d.ambiguities := by
  refine ⟨fun n hn ↦ ?_, fun e he ↦ ?_, fun t ht ↦ ?_⟩
  · obtain ⟨id, kind, hnamed, hid⟩ := h.named n hn
    exact hnamed.legible hid
  · obtain ⟨kind, source, target, A, B, hjoins, -⟩ := h.edges e he
    exact hjoins.legible
  · obtain ⟨ticket, number, resolver, rfl⟩ := h.tickets t ht
    exact ⟨_, rfl⟩

/-- To the check an edge fits just if it is permitted between the kinds that its ends have in the
end. -/
lemma edgeFits_iff (he : e ∈ d.edges) :
    EdgeFits coreRules.get? (kindUnder d.nodes) e ↔ d.Fits e := by
  obtain ⟨kind, source, target, A, B, hjoins, hsource, htarget, hpermits⟩ := h.edges e he
  have hkind : kind ≠ "" := by
    rintro rfl
    exact absurd hpermits (by simp [permits_iff, show coreRules.get? "" = none from rfl])
  have hsourceNe := h.hasNode_ne_empty hsource
  have htargetNe := h.hasNode_ne_empty htarget
  obtain ⟨n, hn, hnamed⟩ := hsource
  obtain ⟨m, hm, hnamed'⟩ := htarget
  obtain ⟨-, -, lastA, -, hlastA⟩ := exists_lastKind?_of_mem h.nodes hn hnamed
  obtain ⟨-, -, lastB, -, hlastB⟩ := exists_lastKind?_of_mem h.nodes hm hnamed'
  rw [hjoins.edgeFits_iff isTextual_coreRules hkind hsourceNe htargetNe
    ((kindUnder_of_named h.named source).trans hlastA)
    ((kindUnder_of_named h.named target).trans hlastB),
    allows_iff isTextual_coreRules, ← permits_iff]
  refine ⟨fun hpermits ↦ ⟨kind, source, target, lastA, lastB, hjoins, hlastA, hlastB, hpermits⟩,
    fun hfits ↦ ?_⟩
  obtain ⟨B', hB', hpermits'⟩ := hfits.exists_permits hjoins hlastA
  cases hlastB.symm.trans hB'
  exact hpermits'

/-- The check of a graph that was built completes, and the graph passes just if all its edges fit.
-/
lemma check (header : List (String × Json)) (file : String) :
    ∃ r, Conformance.check Catalog.coreNodes coreRules file (d.document header) = .ok r ∧
      (r.passes = true ↔ ∀ e ∈ d.edges, d.Fits e) := by
  have hrules : ∀ e ∈ coreRules, Ruled e.2 :=
    fun e he ↦ ruled_of_isTextual (isTextual_coreRules e he)
  obtain ⟨r, hr⟩ : ∃ r, Conformance.check Catalog.coreNodes coreRules file (d.document header) =
    .ok r := check_succeeds _ hrules file rfl rfl rfl h.legible
  obtain ⟨_, _, _, hnodes, hedges, htickets, hpasses⟩ := check_spec hr
  cases hnodes
  cases hedges
  cases htickets
  refine ⟨r, hr, hpasses.trans ⟨fun hconforms e he ↦ (h.edgeFits_iff he).1 (hconforms.edge e he),
    fun hfits ↦ ⟨fun n hn ↦ ?_, fun e he ↦ (h.edgeFits_iff he).2 (hfits e he),
      fun t ht ↦ (h.tickets t ht).fits⟩⟩⟩
  obtain ⟨id, kind, hnamed, hid, hkind⟩ := h.nodes n hn
  rw [NodeFits, hnamed.identifier_eq hid, hnamed.kindOf_eq]
  exact ⟨truthy_str.2 hid, kind, hkind, rfl, ne_empty_of_mem_coreKinds hkind⟩

lemma passes (hfits : ∀ e ∈ d.edges, d.Fits e) (header : List (String × Json))
    (file : String) : d.Passes header file := by
  obtain ⟨r, hr, hpasses⟩ := h.check header file
  have hpass := hpasses.2 hfits
  exact ⟨⟨r, hr, isEmpty_iff.1 hpass, status_eq_pass.2 hpass⟩, hfits,
    fun t ht ↦ (h.tickets t ht).fits⟩

/-- An edge that does not fit has an end of which there are nodes of two kinds. -/
lemma two_kinds_of_not_fits (he : e ∈ d.edges) (hnot : ¬d.Fits e) :
    ∃ id A B, (e.member? "from" = some (.str id) ∨ e.member? "to" = some (.str id)) ∧ A ≠ B ∧
      d.HasNode id A ∧ d.HasNode id B := by
  obtain ⟨kind, source, target, A, B, hjoins, ⟨n, hn, hnamed⟩, ⟨m, hm, hnamed'⟩, hpermits⟩ :=
    h.edges e he
  obtain ⟨n', hn', lastA, hlast, hlastA⟩ := exists_lastKind?_of_mem h.nodes hn hnamed
  obtain ⟨m', hm', lastB, hlast', hlastB⟩ := exists_lastKind?_of_mem h.nodes hm hnamed'
  by_cases hA : A = lastA
  · by_cases hB : B = lastB
    · subst hA hB
      exact absurd ⟨kind, source, target, A, B, hjoins, hlastA, hlastB, hpermits⟩ hnot
    · exact ⟨target, B, lastB, .inr hjoins.target, hB, ⟨m, hm, hnamed'⟩, ⟨m', hm', hlast'⟩⟩
  · exact ⟨source, A, lastA, .inl hjoins.source, hA, ⟨n, hn, hnamed⟩, ⟨n', hn', hlast⟩⟩

lemma fits_of_single (hsingle : ∀ id A B, d.HasNode id A → d.HasNode id B → A = B)
    (he : e ∈ d.edges) : d.Fits e := by
  by_contra hnot
  obtain ⟨id, A, B, -, hne, hA, hB⟩ := h.two_kinds_of_not_fits he hnot
  exact hne (hsingle id A B hA hB)

end Built

end Draft

end CodeAtlas.Build
