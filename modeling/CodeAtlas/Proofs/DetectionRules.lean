import CodeAtlas.Proofs.DeclaredRoles
import CodeAtlas.Proofs.SketchedGraph

/-!
# What detection rules ask for

A detection rule lists words for some aspects of a node: its name, and what it extends, what
decorates it and what it calls. A standard says which edges count for an aspect, what of the node at
their other end is compared, and when a word fits it. Two standards are in use. The strict one wants
the name of the other node to be one of the words; the loose one is content with parts. Frameworks
give roles by the strict one.
-/

namespace CodeAtlas.Fallible

open List Json

/-- A computation ends with an answer, and the answer is right. -/
def Decides {ε : Type} (x : Except ε Bool) (P : Prop) : Prop := ∃ b, x = .ok b ∧ (b = true ↔ P)

namespace Decides

variable {ε : Type} {x y : Except ε Bool} {P Q : Prop}

lemma of_bool (b : Bool) : Decides (.ok b : Except ε Bool) (b = true) := ⟨b, rfl, Iff.rfl⟩

lemma congr (h : Decides x P) (hiff : P ↔ Q) : Decides x Q := by
  obtain ⟨b, hx, hb⟩ := h
  exact ⟨b, hx, hb.trans hiff⟩

lemma eq_ok_true_iff (h : Decides x P) : x = .ok true ↔ P := by
  obtain ⟨b, rfl, hb⟩ := h
  rw [← hb, Except.ok.injEq]

lemma bind_ok {α : Type} {c : Except ε α} {f : α → Except ε Bool} {a : α} (hc : c = .ok a)
    (h : Decides (f a) P) : Decides (c >>= f) P := by
  rw [hc]
  exact h

lemma ite_or (hx : Decides x P) (hy : Decides y Q) :
    Decides (do if ← x then return true else y) (P ∨ Q) := by
  obtain ⟨b, rfl, hb⟩ := hx
  obtain ⟨c, rfl, hc⟩ := hy
  cases b with
  | true => exact ⟨true, rfl, iff_of_true rfl (.inl (hb.1 rfl))⟩
  | false =>
    refine ⟨c, rfl, hc.trans ⟨.inr, fun h ↦ h.resolve_left fun hP ↦ ?_⟩⟩
    exact Bool.false_ne_true (hb.2 hP)

lemma ite_and (hx : Decides x P) (hy : P → Decides y Q) :
    Decides (do if ← x then y else return false) (P ∧ Q) := by
  obtain ⟨b, rfl, hb⟩ := hx
  cases b with
  | true =>
    have hP := hb.1 rfl
    exact (hy hP).congr (and_iff_right hP).symm
  | false =>
    refine ⟨false, rfl, iff_of_false Bool.false_ne_true fun h ↦ ?_⟩
    exact Bool.false_ne_true (hb.2 h.1)

end Decides

end CodeAtlas.Fallible

namespace CodeAtlas.Adapter

open Fallible CodeAtlas.Graph CodeAtlas.Graph.Enrichment CodeAtlas.Graph.Topology List Json

variable {rule detection : Json} {nodes : Table Key Json}

/-! ## Graphs and rules -/

structure Thing where
  id : String
  kind : String
  name : String
deriving DecidableEq

structure Link where
  kind : String
  source : String
  target : String
deriving DecidableEq

/-- What a rule may ask about. -/
inductive Aspect
  | bases
  | decorators
  | name
  | callees
deriving DecidableEq

namespace Aspect

def key : Aspect → String
  | .bases => "inheritance_includes"
  | .decorators => "decorated_by"
  | .name => "function_name"
  | .callees => "used_in_calls"

/-- The end of an edge at which the node stands that is asked about. -/
def near : Aspect → Link → String
  | .decorators, l => l.target
  | _, l => l.source

def far : Aspect → Link → String
  | .decorators, l => l.source
  | _, l => l.target

end Aspect

/-- The role that a rule gives, the kind of nodes it is about, and the words it lists. -/
structure Wish where
  role : String
  kind : String
  words : Aspect → Option (List String)

variable {wish : Wish}

/-- How nodes are judged. -/
structure Standard where
  /-- The edges that count. -/
  counts : Aspect → Link → Bool
  /-- What is compared of the node at the other end. -/
  shown : Aspect → Thing → String
  fits : Aspect → (word text : String) → Bool

namespace Standard

/-- The texts that the words for an aspect are compared with. -/
def compared (std : Standard) (things : List Thing) (links : List Link) (x : Thing) :
    Aspect → List String
  | .name => [x.name]
  | a => (links.filter fun l ↦ std.counts a l && a.near l == x.id).flatMap fun l ↦
      (things.filter fun y ↦ y.id == a.far l).map (std.shown a)

def Meets (std : Standard) (things : List Thing) (links : List Link) (x : Thing) (a : Aspect)
    (ws : List String) : Prop :=
  ∃ w ∈ ws, ∃ text ∈ std.compared things links x a, std.fits a w text = true

/-- A node is of the kind that is asked for, and one word fits for each aspect. -/
def Grants (std : Standard) (things : List Thing) (links : List Link) (x : Thing) (wish : Wish) :
    Prop :=
  x.kind = wish.kind ∧ ∀ a ws, wish.words a = some ws → std.Meets things links x a ws

/-- Some of the rules gives a role to a node. -/
def Shows (std : Standard) (things : List Thing) (links : List Link)
    (wishes : List Wish) (x : Thing) (r : String) : Prop :=
  ∃ wish ∈ wishes, wish.role = r ∧ std.Grants things links x wish

variable {std std' : Standard} {things : List Thing} {links : List Link} {x : Thing} {a : Aspect}
  {ws : List String}

lemma mem_compared (ha : a ≠ .name) {text : String} :
    text ∈ std.compared things links x a ↔ ∃ l ∈ links, std.counts a l = true ∧ a.near l = x.id ∧
      ∃ y ∈ things, y.id = a.far l ∧ std.shown a y = text := by
  have hcompared : std.compared things links x a =
      (links.filter fun l ↦ std.counts a l && a.near l == x.id).flatMap fun l ↦
        (things.filter fun y ↦ y.id == a.far l).map (std.shown a) := by
    cases a with
    | name => exact absurd rfl ha
    | _ => rfl
  simp only [hcompared, mem_flatMap, mem_filter, mem_map, Bool.and_eq_true, beq_iff_eq,
    and_assoc]

lemma meets_iff (ha : a ≠ .name) :
    std.Meets things links x a ws ↔ ∃ l ∈ links, std.counts a l = true ∧ a.near l = x.id ∧
      ∃ y ∈ things, y.id = a.far l ∧ ∃ w ∈ ws, std.fits a w (std.shown a y) = true := by
  simp only [Meets, mem_compared ha]
  constructor
  · rintro ⟨w, hw, text, ⟨l, hl, hcounts, hnear, y, hy, hfar, rfl⟩, hfits⟩
    exact ⟨l, hl, hcounts, hnear, y, hy, hfar, w, hw, hfits⟩
  · rintro ⟨l, hl, hcounts, hnear, y, hy, hfar, w, hw, hfits⟩
    exact ⟨w, hw, _, ⟨l, hl, hcounts, hnear, y, hy, hfar, rfl⟩, hfits⟩

lemma meets_name : std.Meets things links x .name ws ↔
    ∃ w ∈ ws, std.fits .name w x.name = true := by
  simp only [Meets, compared, mem_singleton, exists_eq_left]

lemma Shows.imp {wishes : List Wish} {r : String} (h : std.Shows things links wishes x r)
    (himp : ∀ wish ∈ wishes, ∀ a ws, wish.words a = some ws →
      std.Meets things links x a ws → std'.Meets things links x a ws) :
    std'.Shows things links wishes x r := by
  obtain ⟨wish, hwish, hrole, hkind, hmeets⟩ := h
  exact ⟨wish, hwish, hrole, hkind, fun a ws hws ↦ himp wish hwish a ws hws (hmeets a ws hws)⟩

end Standard

/-! ## The two standards -/

/-- The kind of edges that lead to what is asked about. -/
def Aspect.edge : Aspect → String
  | .bases => "extends"
  | .decorators => "decorates"
  | .name => ""
  | .callees => "calls"

/-- All names under which edges of this kind are known. -/
def Aspect.edges : Aspect → List String
  | .bases => ["extends", "inherits_from"]
  | .decorators => ["decorates"]
  | .name => []
  | .callees => ["calls", "function_call"]

def Link.hasEnds (l : Link) : Bool := l.source != "" && l.target != ""

/-- Names are compared with words as they are. -/
def strict : Standard where
  counts a l := l.kind == a.edge && l.hasEnds
  shown _ y := y.name
  fits _ word text := word == text

/-- Whether a word occurs in a text, or all its parts do if it is dotted. -/
def standsWithin (word text : String) : Bool :=
  Text.occursIn word text ||
    ((Text.splitBy "." word).length > 1 && (Text.splitBy "." word).all (Text.occursIn · text))

/-- Words need only occur in names, or in the ids of decorators. -/
def loose : Standard where
  counts a l := a.edges.contains l.kind
  shown
    | .decorators, y => y.id
    | _, y => y.name
  fits
    | .name, word, text => word == text
    | .callees, word, text => Text.occursIn word text
    | _, word, text => standsWithin word text

section Compared

variable {things : List Thing} {links : List Link} {x : Thing} {a : Aspect} {ws : List String}

lemma strict_meets_iff (ha : a ≠ .name) :
    strict.Meets things links x a ws ↔ ∃ l ∈ links, strict.counts a l = true ∧ a.near l = x.id ∧
      ∃ y ∈ things, y.id = a.far l ∧ y.name ∈ ws := by
  rw [Standard.meets_iff ha]
  simp [strict]

lemma meets_name_iff {std : Standard} (hstd : std = strict ∨ std = loose) :
    std.Meets things links x .name ws ↔ x.name ∈ ws := by
  rw [Standard.meets_name]
  rcases hstd with rfl | rfl
  · simp [strict]
  · simp [loose]

/-- Whatever decorates a node has its name in its id. -/
def DecoratorsNamed (things : List Thing) (links : List Link) : Prop :=
  ∀ l ∈ links, l.kind = "decorates" → ∀ y ∈ things, y.id = l.source →
    Text.occursIn y.name y.id = true

lemma loose_of_strict (hids : DecoratorsNamed things links) (h : strict.Meets things links x a ws) :
    loose.Meets things links x a ws := by
  by_cases ha : a = .name
  · subst ha
    rwa [meets_name_iff (.inr rfl), ← meets_name_iff (.inl rfl)]
  obtain ⟨l, hl, hcounts, hnear, y, hy, hfar, hname⟩ := (strict_meets_iff ha).1 h
  obtain ⟨hkind, -⟩ : l.kind = a.edge ∧ l.hasEnds = true := by simpa [strict] using hcounts
  have hcounts' : loose.counts a l = true := by
    show a.edges.contains l.kind = true
    rw [hkind]
    cases a with
    | name => exact absurd rfl ha
    | _ => decide
  refine (Standard.meets_iff ha).2 ⟨l, hl, hcounts', hnear, y, hy, hfar, y.name, hname, ?_⟩
  cases a with
  | name => exact absurd rfl ha
  | decorators => simp [loose, standsWithin, hids l hl hkind y hy hfar]
  | bases => simp [loose, standsWithin, Build.occursIn_self]
  | callees => simp [loose, Build.occursIn_self]

/-- No word fits merely in part: what fits loosely at the end of an edge has one of the words for a
name, and the edge is one that counts. -/
def Sharp (things : List Thing) (links : List Link) (a : Aspect) (ws : List String) : Prop :=
  ∀ l ∈ links, loose.counts a l = true → ∀ y ∈ things, y.id = a.far l →
    (∃ w ∈ ws, loose.fits a w (loose.shown a y) = true) → strict.counts a l = true ∧ y.name ∈ ws

lemma strict_of_loose (hsharp : a ≠ .name → Sharp things links a ws)
    (h : loose.Meets things links x a ws) : strict.Meets things links x a ws := by
  by_cases ha : a = .name
  · subst ha
    rwa [meets_name_iff (.inl rfl), ← meets_name_iff (.inr rfl)]
  obtain ⟨l, hl, hcounts, hnear, y, hy, hfar, hfits⟩ := (Standard.meets_iff ha).1 h
  obtain ⟨hcounts', hname⟩ := hsharp ha l hl hcounts y hy hfar hfits
  exact (strict_meets_iff ha).2 ⟨l, hl, hcounts', hnear, y, hy, hfar, hname⟩

end Compared

/-! ## Documents -/

/-- A node as a builder writes it, without roles. -/
structure Thing.Describes (x : Thing) (n : Json) : Prop where
  id : n.member? "id" = some (.str x.id)
  kind : n.member? "node_type" = some (.str x.kind)
  name : n.member? "name" = some (.str x.name)
  roles : n.member? "semantic_roles" = none

/-- An edge as a builder writes it, without the names of members that a merged graph has. -/
structure Link.Describes (l : Link) (e : Json) : Prop where
  kind : e.member? "edge" = some (.str l.kind)
  source : e.member? "from" = some (.str l.source)
  target : e.member? "to" = some (.str l.target)
  plain : ∀ name ∈ ["source", "target", "type"], e.member? name = none

def listed (ws : List String) : Json := .arr (ws.map .str)

/-- A rule with words for some aspects, and nothing else to ask for. -/
structure Wish.Describes (wish : Wish) (rule : Json) : Prop where
  role : rule.member? "semantic_role" = some (.str wish.role)
  kind : rule.member? "core_node" = some (.str wish.kind)
  words : ∃ members, detectionOf rule = .obj members ∧
    (∀ a : Aspect, Table.get? members a.key = (wish.words a).map listed) ∧
    ∀ name ∈ Table.keys members, ∃ a : Aspect, name = a.key

/-- A graph as a builder leaves it that could prove everything: nodes have distinct ids, edges join
them, and there are no tickets. -/
structure Fragment (things : List Thing) (links : List Link) (doc : Json) : Prop where
  nodes : ∃ ns, doc.member? "nodes" = some (.arr ns) ∧ List.Forall₂ Thing.Describes things ns
  edges : ∃ es, doc.member? "edges" = some (.arr es) ∧ List.Forall₂ Link.Describes links es
  tickets : doc.member? "ambiguities" = none ∨ doc.member? "ambiguities" = some (.arr [])
  distinct : (things.map Thing.id).Nodup
  joined : ∀ l ∈ links, l.source ∈ things.map Thing.id ∧ l.target ∈ things.map Thing.id

lemma Fragment.exists_far {things : List Thing} {links : List Link} {doc : Json}
    (h : Fragment things links doc) (a : Aspect) {l : Link} (hl : l ∈ links) :
    ∃ y ∈ things, y.id = a.far l := by
  obtain ⟨hsource, htarget⟩ := h.joined l hl
  cases a with
  | decorators => exact mem_map.1 hsource
  | _ => exact mem_map.1 htarget

/-- The nodes of a graph under their ids. -/
def Tabulates (things : List Thing) (t : Table Key Json) : Prop :=
  List.Forall₂ (fun x e ↦ e.1 = .str x.id ∧ x.Describes e.2) things t

namespace Tabulates

variable {things : List Thing} {t : Table Key Json}

lemma of_nodes {ns : List Json} (h : Forall₂ Thing.Describes things ns) :
    ∃ t, Tabulates things t ∧ t.values = ns := by
  induction h with
  | nil => exact ⟨[], .nil, rfl⟩
  | @cons x n _ _ hhead _ ih =>
    obtain ⟨t, ht, rfl⟩ := ih
    exact ⟨(.str x.id, n) :: t, .cons ⟨rfl, hhead⟩ ht, rfl⟩

lemma keys_eq (h : Tabulates things t) : t.keys = (things.map Thing.id).map .str := by
  induction h with
  | nil => rfl
  | cons hhead _ ih =>
    rw [Table.keys, map_cons, map_cons, map_cons, hhead.1]
    exact congrArg _ ih

lemma nodup_keys (h : Tabulates things t) (hdistinct : (things.map Thing.id).Nodup) :
    t.keys.Nodup := by
  rw [h.keys_eq]
  exact hdistinct.map fun _ _ heq ↦ Key.str.inj heq

lemma get? (h : Tabulates things t) (hdistinct : (things.map Thing.id).Nodup) {x : Thing}
    (hx : x ∈ things) : ∃ n, t.get? (.str x.id) = some n ∧ x.Describes n := by
  obtain ⟨e, he, hkey, hn⟩ := exists_right_of_mem h hx
  exact ⟨e.2, hkey ▸ Table.get?_of_mem (h.nodup_keys hdistinct) he, hn⟩

lemma identified (h : Tabulates things t) : Identified t := by
  intro k n hn
  obtain ⟨x, -, hkey, hx⟩ := exists_left_of_mem h hn
  obtain rfl : k = .str x.id := hkey
  exact ⟨.str x.id, hx.id, key?_str x.id⟩

end Tabulates

lemma Fragment.exists_table {things : List Thing} {links : List Link} {doc : Json}
    (h : Fragment things links doc) : ∃ t, Tabulates things t ∧ Tabled doc t := by
  obtain ⟨ns, hns, hthings⟩ := h.nodes
  obtain ⟨t, ht, rfl⟩ := Tabulates.of_nodes hthings
  refine ⟨t, ht, ?_, ht.nodup_keys h.distinct, ht.identified⟩
  exact bind_eq_ok.2 ⟨_, need_eq_ok.2 hns, rfl⟩

/-! ## Rules on nodes -/

lemma decides_holds (ws : List String) (name : String) :
    Decides ((listed ws).holds name) (name ∈ ws) := by
  refine ⟨_, rfl, ?_⟩
  simp [alike_str]

lemma Aspect.key_injective : Function.Injective Aspect.key := by
  intro a b h
  cases a with
  | _ =>
    cases b with
    | _ => first | rfl | exact absurd h (by decide)

/-- Tries what is given of some names, until it does not hold. -/
def tryAll (given test : String → Except Fault Bool) : List String → Except Fault Bool
  | [] => .ok true
  | name :: rest => do
    if ← given name then
      if ← test name then tryAll given test rest else return false
    else tryAll given test rest

lemma decides_tryAll {members : Table String Json} {words : Aspect → Option (List String)}
    (hwords : ∀ a : Aspect, Table.get? members a.key = (words a).map listed)
    (hkeys : ∀ name ∈ Table.keys members, ∃ a : Aspect, name = a.key)
    {test : String → Except Fault Bool} {M : Aspect → List String → Prop}
    (htest : ∀ a ws, words a = some ws → Decides (test a.key) (M a ws)) (names : List String) :
    Decides (tryAll (fun name ↦ (obj members).holds name) test names)
      (∀ a : Aspect, a.key ∈ names → ∀ ws, words a = some ws → M a ws) := by
  induction names with
  | nil => exact ⟨true, rfl, by simp⟩
  | cons name rest ih =>
    have hgiven : (obj members).holds name = .ok (Table.get? members name).isSome := rfl
    rw [tryAll, hgiven]
    cases hname : Table.get? members name with
    | none =>
      -- No aspect for which there are words has this name for its key.
      refine ih.congr (forall_congr' fun a ↦ ?_)
      rw [mem_cons, or_imp, iff_and_self]
      rintro - rfl ws hws
      rw [hwords, hws] at hname
      cases hname
    | some v =>
      obtain ⟨a, rfl⟩ := hkeys name (Table.mem_keys_of_get? hname)
      rw [hwords, Option.map_eq_some_iff] at hname
      obtain ⟨ws, hws, -⟩ := hname
      refine ((htest a ws hws).ite_and fun _ ↦ ih).congr ⟨fun ⟨hmeets, hrest⟩ b hb ws' hws' ↦ ?_,
        fun hall ↦ ⟨hall a mem_cons_self ws hws, fun b hb ↦ hall b (mem_cons_of_mem _ hb)⟩⟩
      rcases mem_cons.1 hb with hkey | hb
      · obtain rfl := Aspect.key_injective hkey
        cases hws.symm.trans hws'
        exact hmeets
      · exact hrest b hb ws' hws'

/-! ## Roles that frameworks give -/

lemma decides_namedIn {n : Json} {y : Thing} {name : String} {ws : List String} (hn : y.Describes n)
    (hws : detection.member? name = some (listed ws)) :
    Decides (Roles.namedIn detection name n) (y.name ∈ ws) :=
  .bind_ok (get_of_member? hn.name) (.bind_ok (need_eq_ok.2 hws) (decides_holds ws y.name))

/-- The edges of a graph at one of their ends, each with its kind and its other end. -/
def endsAt (a : Aspect) (id : String) (links : List Link) : List (Json × Json) :=
  (links.filter fun l ↦ l.hasEnds && a.near l == id).map fun l ↦ (.str l.kind, .str (a.far l))

lemma edgesAt_push (table : Table Key (List (Json × Json))) (s id : String) (e : Json × Json) :
    edgesAt (table.push (.str s) e) id =
      edgesAt table id ++ if s = id then [e] else [] := by
  rw [edgesAt, edgesAt, key?_str, Option.bind_some, Option.bind_some, Table.get?_push]
  by_cases hid : s = id
  · rw [if_pos (by rw [hid]), if_pos hid, hid]
    rfl
  · rw [if_neg fun heq ↦ hid (Key.str.inj heq).symm, if_neg hid, append_nil]

lemma endsAt_cons (a : Aspect) (id : String) (l : Link) (links : List Link) :
    endsAt a id (l :: links) =
      (if l.hasEnds = true then if a.near l = id then [(.str l.kind, .str (a.far l))]
        else [] else []) ++ endsAt a id links := by
  rw [endsAt, endsAt, filter_cons]
  by_cases hends : l.hasEnds = true
  · by_cases hnear : a.near l = id <;> simp [hends, hnear]
  · simp [hends]

/-- The edges of a topology are those of a graph. -/
structure Joins (links : List Link) (t t' : Topology) : Prop where
  nodes : t'.nodes = t.nodes
  leaving : ∀ id, Topology.edgesAt t'.leaving (.str id) =
    Topology.edgesAt t.leaving (.str id) ++ endsAt .bases id links
  arriving : ∀ id, Topology.edgesAt t'.arriving (.str id) =
    Topology.edgesAt t.arriving (.str id) ++ endsAt .decorators id links

lemma addEdge_of_describes {l : Link} {e : Json} (he : l.Describes e) (t : Topology) :
    t.addEdge e = .ok (if l.hasEnds = true then
      { t with leaving := t.leaving.push (.str l.source) (.str l.kind, .str l.target),
               arriving := t.arriving.push (.str l.target) (.str l.kind, .str l.source) }
                 else t) := by
  -- The names of a merged graph are asked for first, and those of a fragment serve in their place.
  have hgetD (name : String) (v : Json) (hname : e.member? name = none) : e.getD name v = .ok v :=
    getD_eq_ok.2 ⟨isObject_of_member? he.kind, by rw [hname]; rfl⟩
  simp only [addEdge, get_of_member? he.source, get_of_member? he.target,
    get_of_member? he.kind, hgetD "source" _ (he.plain _ (by simp)),
    hgetD "target" _ (he.plain _ (by simp)), hgetD "type" _ (he.plain _ (by simp)), key_str,
    bind, Except.bind]
  have hends : ((str l.source).truthy && (str l.target).truthy) = l.hasEnds := rfl
  rw [hends]
  split
  all_goals rfl

lemma exists_joins {es : List Json} {links : List Link} (h : Forall₂ Link.Describes links es)
    (t : Topology) : ∃ t', es.foldlM addEdge t = .ok t' ∧ Joins links t t' := by
  induction h generalizing t with
  | nil => exact ⟨t, rfl, rfl, fun _ ↦ (append_nil _).symm, fun _ ↦ (append_nil _).symm⟩
  | @cons l e links es hhead _ ih =>
    rw [foldlM_cons, addEdge_of_describes hhead]
    obtain ⟨t', hrun, hjoins⟩ := ih _
    refine ⟨t', hrun, ?_, fun id ↦ ?_, fun id ↦ ?_⟩
    · rw [hjoins.nodes]
      split
      all_goals rfl
    · rw [hjoins.leaving, endsAt_cons, ← append_assoc]
      split
      · rw [edgesAt_push]
        rfl
      · rw [append_nil]
    · rw [hjoins.arriving, endsAt_cons, ← append_assoc]
      split
      · rw [edgesAt_push]
        rfl
      · rw [append_nil]

/-- A graph with all its nodes and edges, as rules look at it. -/
structure Surrounds (things : List Thing) (links : List Link) (t : Topology) : Prop where
  nodes : ∀ y ∈ things, ∃ n, t.node? (.str y.id) = .ok (some n) ∧ y.Describes n
  leaving : ∀ id, t.leavingFrom (.str id) = .ok (endsAt .bases id links)
  arriving : ∀ id, t.arrivingAt (.str id) = .ok (endsAt .decorators id links)

lemma Fragment.exists_topology {things : List Thing} {links : List Link} {doc : Json}
    (h : Fragment things links doc) (hnodes : Tabulates things nodes) :
    ∃ t, topologyOf { fresh := nodes } doc = .ok t ∧ Surrounds things links t := by
  obtain ⟨es, hes, hlinks⟩ := h.edges
  obtain ⟨t, hrun, hjoins⟩ := exists_joins hlinks { nodes := nodes }
  refine ⟨t, ?_, fun y hy ↦ ?_, fun id ↦ ?_, fun id ↦ ?_⟩
  · exact bind_eq_ok.2 ⟨_, need_eq_ok.2 hes, bind_eq_ok.2 ⟨es, rfl, hrun⟩⟩
  · obtain ⟨n, hn, hdescribes⟩ := hnodes.get? h.distinct hy
    refine ⟨n, ?_, hdescribes⟩
    rw [node?_eq_ok (key?_str y.id), Topology.find?, key?_str, Option.bind_some,
      hjoins.nodes, hn, Option.filter_some, if_pos (truthy_of_member? hdescribes.id)]
  · rw [leavingFrom_eq_ok (key?_str id), hjoins.leaving]
    rfl
  · rw [arrivingAt_eq_ok (key?_str id), hjoins.arriving]
    rfl

lemma decides_someEnd {t : Topology} {type : String} {test : Json → Except Fault Bool}
    {far : Link → String} {P : Link → Prop} {links : List Link}
    (h : ∀ l ∈ links, ∃ n, t.node? (.str (far l)) = .ok (some n) ∧ Decides (test n) (P l)) :
    Decides (Roles.someEnd t type test (links.map fun l ↦ (.str l.kind, .str (far l))))
      (∃ l ∈ links, l.kind = type ∧ P l) := by
  induction links with
  | nil => exact ⟨false, rfl, by simp⟩
  | cons l rest ih =>
    obtain ⟨⟨n, hn, htest⟩, hrest⟩ := forall_mem_cons.1 h
    rw [map_cons, Roles.someEnd]
    by_cases hkind : l.kind = type
    · rw [if_pos (same_str.2 (congrArg str hkind)), hn]
      refine (htest.ite_or (ih hrest)).congr ?_
      simp [hkind]
    · rw [if_neg fun hsame ↦ hkind (str.inj (same_str.1 hsame))]
      refine (ih hrest).congr ?_
      simp [hkind]

section Recognition

variable {things : List Thing} {links : List Link} {doc n : Json} {t : Topology} {x : Thing}
  (hdoc : Fragment things links doc) (ht : Surrounds things links t)
include hdoc ht

lemma decides_linked {a : Aspect} (ha : a ≠ .name) {ws : List String}
    (hws : detection.member? a.key = some (listed ws)) (x : Thing) :
    Decides (Roles.someEnd t a.edge (Roles.namedIn detection a.key) (endsAt a x.id links))
      (strict.Meets things links x a ws) := by
  refine (decides_someEnd (P := fun l ↦ ∃ y ∈ things, y.id = a.far l ∧ y.name ∈ ws) ?_).congr ?_
  · intro l hl
    obtain ⟨y, hy, hfar⟩ := hdoc.exists_far a (mem_of_mem_filter hl)
    obtain ⟨m, hm, hdescribes⟩ := ht.nodes y hy
    refine ⟨m, hfar ▸ hm, (decides_namedIn hdescribes hws).congr
      ⟨fun hname ↦ ⟨y, hy, hfar, hname⟩, ?_⟩⟩
    -- Ids are distinct, so that the node that is looked up is the only one that can be meant.
    rintro ⟨y', hy', hfar', hname⟩
    obtain rfl := inj_on_of_nodup_map hdoc.distinct hy hy' (hfar.trans hfar'.symm)
    exact hname
  · rw [strict_meets_iff ha]
    simp only [mem_filter, strict, Bool.and_eq_true, beq_iff_eq]
    constructor
    · rintro ⟨l, ⟨hl, hends, hnear⟩, hkind, hfar⟩
      exact ⟨l, hl, ⟨hkind, hends⟩, hnear, hfar⟩
    · rintro ⟨l, hl, ⟨hkind, hends⟩, hnear, hfar⟩
      exact ⟨l, ⟨hl, hends, hnear⟩, hkind, hfar⟩

lemma decides_ruleHolds (hn : x.Describes n) {a : Aspect} {ws : List String}
    (hws : detection.member? a.key = some (listed ws)) :
    Decides (Roles.ruleHolds t detection n a.key) (strict.Meets things links x a ws) := by
  refine .bind_ok (get_of_member? hn.id) ?_
  cases a with
  | bases => exact .bind_ok (ht.leaving x.id) (decides_linked hdoc ht (by decide) hws x)
  | decorators =>
    refine .bind_ok (need_eq_ok.2 hws) (.bind_ok (ht.arriving x.id) ?_)
    exact decides_linked hdoc ht (by decide) hws x
  | name => exact (decides_namedIn hn hws).congr (meets_name_iff (.inl rfl)).symm
  | callees => exact .bind_ok (ht.leaving x.id) (decides_linked hdoc ht (by decide) hws x)

lemma decides_recognises (hn : x.Describes n) (hrule : wish.Describes rule) :
    Decides (Roles.recognises t (detectionOf rule) n)
      (∀ a ws, wish.words a = some ws → strict.Meets things links x a ws) := by
  obtain ⟨members, hdetection, hwords, hkeys⟩ := hrule.words
  have hnames (a : Aspect) : a.key ∈ Roles.ruleNames := by cases a <;> decide
  rw [hdetection]
  refine .bind_ok (get_of_member? hn.id) ?_
  refine (decides_tryAll hwords hkeys (fun a ws hws ↦ ?_) Roles.ruleNames).congr
    ⟨fun h a ↦ h a (hnames a), fun h a _ ↦ h a⟩
  refine decides_ruleHolds hdoc ht hn ?_
  rw [member?_obj, hwords, hws]
  rfl

lemma earns_iff (hn : x.Describes n) (hrule : wish.Describes rule) :
    Earns t n rule ↔ strict.Grants things links x wish := by
  have hkind : kindOf n = .str x.kind := by
    rw [kindOf, hn.kind]
    rfl
  have hsame : (kindOf n).same wish.kind = true ↔ x.kind = wish.kind := by
    rw [hkind, same_str, str.injEq]
  simp only [Earns, hrule.kind, Option.some.injEq, exists_eq_left',
    (decides_recognises hdoc ht hn hrule).eq_ok_true_iff, hsame, Standard.Grants]

end Recognition

/-- A mapping whose rules list words and ask for nothing else. -/
def Wishes (wishes : List Wish) (mapping : Json) (rules : List Json) : Prop :=
  rulesOf (.ok (some mapping)) = .ok rules ∧ List.Forall₂ Wish.Describes wishes rules

section Giving

variable {things : List Thing} {links : List Link} {doc mapping n : Json} {wishes : List Wish}
  {rules : List Json} {t : Topology} {x : Thing}

lemma earned_iff (hdoc : Fragment things links doc) (hmapping : Wishes wishes mapping rules)
    (ht : Surrounds things links t) (hn : x.Describes n) (r : String) :
    Earned t n rules r ↔ strict.Shows things links wishes x r := by
  constructor
  · rintro ⟨rule, hrule, hrole, hearns⟩
    obtain ⟨wish, hwish, hdescribes⟩ := exists_left_of_mem hmapping.2 hrule
    rw [hdescribes.role, Option.some.injEq, str.injEq] at hrole
    exact ⟨wish, hwish, hrole, (earns_iff hdoc ht hn hdescribes).1 hearns⟩
  · rintro ⟨wish, hwish, rfl, hgrants⟩
    obtain ⟨rule, hrule, hdescribes⟩ := exists_right_of_mem hmapping.2 hwish
    exact ⟨rule, hrule, hdescribes.role, (earns_iff hdoc ht hn hdescribes).2 hgrants⟩

lemma exists_applyRuleTo (hdoc : Fragment things links doc) (ht : Surrounds things links t)
    (hn : x.Describes n) (hrule : wish.Describes rule) : ∃ m, applyRuleTo t n rule = .ok m := by
  have hobject := isObject_of_member? hn.id
  have hroles : rolesOf n = .arr [] := by
    rw [rolesOf, hn.roles]
    rfl
  refine applyRuleTo_completes.2 ⟨⟨_, _, hrule.role, hrule.kind⟩, hobject, fun role _ _ _ _ ↦ ?_⟩
  obtain ⟨found, hfound, -⟩ := decides_recognises hdoc ht hn hrule
  exact ⟨found, hfound, fun _ ↦ addRole_completes hobject hroles role⟩

lemma exists_applyRules (hdoc : Fragment things links doc) (hmapping : Wishes wishes mapping rules)
    (ht : Surrounds things links t) (hnodes : Tabulates things nodes) :
    ∃ s, rules.foldlM (applyRule t) (nodes, 0) = .ok s := by
  refine foldlM_applyRule_completes.2 fun rule hrule ↦ ?_
  obtain ⟨wish, -, hwish⟩ := exists_left_of_mem hmapping.2 hrule
  refine ⟨⟨_, _, hwish.role, hwish.kind⟩, fun e he ↦ ?_⟩
  obtain ⟨x, -, -, hx⟩ := exists_left_of_mem hnodes he
  exact exists_applyRuleTo hdoc ht hx hwish

lemma exists_enriched (hdoc : Fragment things links doc) (hmapping : Wishes wishes mapping rules)
    {before report : Json} (hfull : isFull before report = true) :
    ∃ g done, enriched doc before report [.ok (some mapping)] = .ok g ∧ Tabled g done ∧
      done.keys = things.map (.str ·.id) ∧ ∀ x ∈ things, ∃ m, done.get? (.str x.id) = some m ∧
        ∀ r, HasRole m r ↔ strict.Shows things links wishes x r := by
  obtain ⟨nodes, hnodes, htabled⟩ := hdoc.exists_table
  obtain ⟨t, ht, hsurrounds⟩ := hdoc.exists_topology hnodes
  have hlists : [.ok (some mapping)].mapM rulesOf = .ok [rules] := by
    rw [mapM_cons, hmapping.1]
    rfl
  have hflat : [rules].flatten = rules := by simp
  obtain ⟨⟨done, count⟩, hrun⟩ := exists_applyRules hdoc hmapping hsurrounds hnodes
  rw [← hflat] at hrun
  obtain ⟨es, hes, -⟩ := hdoc.edges
  obtain ⟨g, hg⟩ := exists_document hes report { fresh := nodes } done count
  have hnames (rule : Json) (hrule : rule ∈ [rules].flatten) : NamesRole rule := by
    obtain ⟨wish, -, hwish⟩ := exists_left_of_mem hmapping.2 (hflat ▸ hrule)
    exact ⟨wish.role, hwish.role⟩
  have hfullRun := fullRun_of_rules htabled ht hlists hnames hrun hg
  refine ⟨g, done, (enriched_iff_of_full htabled hfull).2 ⟨t, _, done, count, ht, hlists, hrun, hg⟩,
    hfullRun.tabled, ?_, fun x hx ↦ ?_⟩
  · rw [hfullRun.keys, hnodes.keys_eq, map_map]
    rfl
  · obtain ⟨n, hn, hdescribes⟩ := hnodes.get? hdoc.distinct hx
    obtain ⟨m, hm, hroles, -⟩ := hfullRun.get? hn
    have hnone (r : String) : ¬HasRole n r := by
      rw [HasRole, rolesOf, hdescribes.roles]
      exact fun h ↦ Bool.false_ne_true (Except.ok.inj h)
    refine ⟨m, hm, fun r ↦ ?_⟩
    rw [hroles, hflat, earned_iff hdoc hmapping hsurrounds hdescribes]
    exact or_iff_right (hnone r)

end Giving

end CodeAtlas.Adapter
