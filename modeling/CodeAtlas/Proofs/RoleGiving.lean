import CodeAtlas.Graph.Enrichment
import CodeAtlas.Proofs.NodeTables

/-!
# Roles that a node gets

Whether a node is recognised depends on its own type and name, on the kinds of its edges, on what
its neighbours and the imports of its file are called, and on where its neighbours stand. This is
the view of a node. Rules are tried one after the other on all nodes, but they never look at the
roles of other nodes. So nodes of the same view get the same roles, whatever else is in their
graphs, and nothing but its roles changes in a node.
-/

namespace CodeAtlas.Graph

open Fallible Json List

variable {k : Key} {n n' v : Json}

/-- What a rule sees of a node at the other end of an edge. -/
structure Face where
  name : Option Json
  path : Option Json

def faceOf (n : Json) : Face := ⟨n.member? "name", n.member? "file_path"⟩

namespace Topology

def withNodes (t : Topology) (nodes : Table Key Json) : Topology := { t with nodes }

@[simp]
lemma leaving_withNodes (t : Topology) (nodes : Table Key Json) :
    (t.withNodes nodes).leaving = t.leaving := rfl

@[simp]
lemma arriving_withNodes (t : Topology) (nodes : Table Key Json) :
    (t.withNodes nodes).arriving = t.arriving := rfl

/-- The edges under an id, each with its kind and its other end. -/
def edgesAt (table : Table Key (List (Json × Json))) (id : Json) : List (Json × Json) :=
  (id.key?.bind table.get?).getD []

/-- The node of an id; an empty one does not count. -/
def find? (t : Topology) (id : Json) : Option Json :=
  (id.key?.bind t.nodes.get?).filter truthy

/-- The kinds of edges, with what is seen at their other ends. -/
def seen (t : Topology) (ends : List (Json × Json)) : List (Json × Option Face) :=
  ends.map fun e ↦ (e.1, (t.find? e.2).map faceOf)

/-- The file that defines a node: the first one that claims to. -/
def fileOf? (t : Topology) (id : Json) : Option Json :=
  ((edgesAt t.arriving id).find? (·.1.same (.str "defines"))).bind fun e ↦ t.find? e.2

/-- The edges that leave the file of a node. -/
def leavingFile (t : Topology) (id : Json) : List (Json × Json) :=
  match t.fileOf? id with
  | some file => edgesAt t.leaving ((file.member? "id").getD .null)
  | none => []

/-- The other ends of edges serve as keys. -/
def Keyed (ends : List (Json × Json)) : Prop := ∀ e ∈ ends, ∃ k, e.2.key? = some k

/-- Nodes have texts for ids, and the ends of edges serve as keys. -/
structure WellFormed (t : Topology) : Prop where
  nodes : ∀ k n, t.nodes.get? k = some n → HasTextId n
  leaving : ∀ k ends, t.leaving.get? k = some ends → Keyed ends
  arriving : ∀ k ends, t.arriving.get? k = some ends → Keyed ends

end Topology

/-- All that rules see of a node. -/
structure View where
  type : Json
  name : Json
  roles : Option Json
  leaving : List (Json × Option Face)
  arriving : List (Json × Option Face)
  leavingFile : List (Json × Option Face)

def viewOf (t : Topology) (n : Json) : View :=
  let id := (n.member? "id").getD .null
  { type := (n.member? "node_type").getD ((n.member? "type").getD .null)
    name := (n.member? "name").getD .null
    roles := n.member? "semantic_roles"
    leaving := t.seen (Topology.edgesAt t.leaving id)
    arriving := t.seen (Topology.edgesAt t.arriving id)
    leavingFile := t.seen (t.leavingFile id) }

namespace Topology

variable {t t' : Topology}

lemma keyed_edgesAt {table : Table Key (List (Json × Json))}
    (h : ∀ k ends, table.get? k = some ends → Keyed ends) (id : Json) :
    Keyed (edgesAt table id) := by
  rw [edgesAt]
  cases hends : id.key?.bind table.get? with
  | none => simp [Keyed]
  | some ends =>
    obtain ⟨k, -, hk⟩ := Option.bind_eq_some_iff.1 hends
    exact h k ends hk

lemma WellFormed.keyed_leavingFile (h : t.WellFormed) (id : Json) : Keyed (t.leavingFile id) := by
  rw [leavingFile]
  cases t.fileOf? id with
  | none => simp [Keyed]
  | some file => exact keyed_edgesAt h.leaving _

lemma node?_eq_ok (hk : v.key? = some k) : t.node? v = .ok (t.find? v) := by
  rw [node?, key_eq_ok.2 hk, find?, hk]
  rfl

lemma leavingFrom_eq_ok (hk : v.key? = some k) : t.leavingFrom v = .ok (edgesAt t.leaving v) := by
  rw [leavingFrom, key_eq_ok.2 hk, edgesAt, hk]
  rfl

lemma arrivingAt_eq_ok (hk : v.key? = some k) : t.arrivingAt v = .ok (edgesAt t.arriving v) := by
  rw [arrivingAt, key_eq_ok.2 hk, edgesAt, hk]
  rfl

lemma WellFormed.hasTextId_of_find? (h : t.WellFormed) (hn : t.find? v = some n) : HasTextId n := by
  obtain ⟨hbind, -⟩ := Option.filter_eq_some_iff.1 hn
  obtain ⟨k, -, hk⟩ := Option.bind_eq_some_iff.1 hbind
  exact h.nodes k n hk

end Topology

namespace Roles

open CodeAtlas.Graph.Topology

variable {t t' : Topology}

lemma get_congr {name : String} (hn : n.IsObject) (hn' : n'.IsObject)
    (h : n.member? name = n'.member? name) (d : Json) : n.getD name d = n'.getD name d := by
  rw [getD_eq_ok.2 ⟨hn, rfl⟩, getD_eq_ok.2 ⟨hn', rfl⟩, h]

lemma namedIn_congr (hname : n.get "name" = n'.get "name") (rules : Json) (rule : String) :
    namedIn rules rule n = namedIn rules rule n' := by
  rw [namedIn, namedIn, hname]

lemma standsIn_congr (hname : ∀ d, n.getD "name" d = n'.getD "name" d)
    (hpath : ∀ d, n.getD "file_path" d = n'.getD "file_path" d) (rules : Json) :
    standsIn rules n = standsIn rules n' := by
  simp only [standsIn, hname, hpath]

lemma isPackage_congr (hname : n.get "name" = n'.get "name") (wanted : Json) :
    isPackage wanted n = isPackage wanted n' := by
  rw [isPackage, isPackage, hname]

/-- A test that looks at faces only has the same outcome wherever the same is seen. -/
lemma someEnd_congr (ht : t.WellFormed) (ht' : t'.WellFormed) {type : String}
    {test : Json → Except Fault Bool}
    (htest : ∀ n n', n.IsObject → n'.IsObject → faceOf n = faceOf n' → test n = test n')
    {ends ends' : List (Json × Json)} (hends : Keyed ends) (hends' : Keyed ends')
    (hseen : t.seen ends = t'.seen ends') :
    someEnd t type test ends = someEnd t' type test ends' := by
  induction ends generalizing ends' with
  | nil =>
    cases ends' with
    | nil => rfl
    | cons e' rest' => simp [seen] at hseen
  | cons e rest ih =>
    cases ends' with
    | nil => simp [seen] at hseen
    | cons e' rest' =>
      obtain ⟨kind, other⟩ := e
      obtain ⟨kind', other'⟩ := e'
      obtain ⟨⟨rfl, hface⟩, hrest⟩ : (kind = kind' ∧
          (t.find? other).map faceOf = (t'.find? other').map faceOf) ∧
          t.seen rest = t'.seen rest' := by
        simpa [seen] using hseen
      obtain ⟨k, hk⟩ := hends (kind, other) mem_cons_self
      obtain ⟨k', hk'⟩ := hends' (kind, other') mem_cons_self
      have hnext := ih (fun e he ↦ hends e (mem_cons_of_mem _ he))
        (fun e he ↦ hends' e (mem_cons_of_mem _ he)) hrest
      rw [someEnd, someEnd, node?_eq_ok hk, node?_eq_ok hk', hnext]
      cases hn : t.find? other with
      | none =>
        rw [hn, Option.map_none, eq_comm, Option.map_eq_none_iff] at hface
        rw [hface]
      | some n =>
        rw [hn, Option.map_some, eq_comm, Option.map_eq_some_iff] at hface
        obtain ⟨n', hn', hface⟩ := hface
        rw [hn']
        simp only [bind, Except.bind, htest n n' (ht.hasTextId_of_find? hn).isObject
          (ht'.hasTextId_of_find? hn').isObject hface.symm]

lemma definingFile?_eq_ok {ends : List (Json × Json)} (hends : Keyed ends) : definingFile? t ends =
      .ok ((ends.find? (·.1.same "defines")).bind fun e ↦ t.find? e.2) := by
  induction ends with
  | nil => rfl
  | cons e rest ih =>
    obtain ⟨k, hk⟩ := hends e mem_cons_self
    rw [definingFile?, find?_cons]
    cases e.1.same "defines" with
    | true => exact node?_eq_ok hk
    | false => exact ih fun e he ↦ hends e (mem_cons_of_mem _ he)

lemma importsPackage_eq (ht : t.WellFormed) {id : Json} (hk : id.key? = some k) (rules : Json) :
    importsPackage t rules id = rules.need "requires_import" >>= fun wanted ↦
      someEnd t "imports" (isPackage wanted) (t.leavingFile id) := by
  rw [importsPackage, arrivingAt_eq_ok hk]
  cases rules.need "requires_import" with
  | error fault => rfl
  | ok wanted =>
    show (definingFile? t (edgesAt t.arriving id) >>= _) = someEnd t _ _ _
    rw [definingFile?_eq_ok (keyed_edgesAt ht.arriving id), leavingFile]
    show (match t.fileOf? id with
      | some file => _
      | none => _) = _
    cases hfile : t.fileOf? id with
    | none => rfl
    | some file =>
      obtain ⟨e, -, hfind⟩ := Option.bind_eq_some_iff.1 hfile
      obtain ⟨fileId, hfileId⟩ := ht.hasTextId_of_find? hfind
      have hget : file.get "id" = .ok fileId :=
        get_eq_ok.2 ⟨isObject_of_member? hfileId, by rw [hfileId]; rfl⟩
      simp only [hget, hfileId, Option.getD_some, leavingFrom_eq_ok (key?_str fileId),
        bind, Except.bind]

/-- A rule holds of both nodes or of neither if it sees the same of them. -/
lemma ruleHolds_congr (ht : t.WellFormed) (ht' : t'.WellFormed) (hn : HasTextId n)
    (hn' : HasTextId n') (h : viewOf t n = viewOf t' n') (rules : Json) (rule : String) :
    ruleHolds t rules n rule = ruleHolds t' rules n' rule := by
  have hobj := hn.isObject
  have hobj' := hn'.isObject
  obtain ⟨id, hid⟩ := hn
  obtain ⟨id', hid'⟩ := hn'
  have hk : (str id).key? = some (.str id) := rfl
  have hk' : (str id').key? = some (.str id') := rfl
  have hname : (n.member? "name").getD .null = (n'.member? "name").getD .null :=
    congrArg View.name h
  have hleaving : t.seen (edgesAt t.leaving id) = t'.seen (edgesAt t'.leaving id') := by
    simpa [viewOf, hid, hid'] using congrArg View.leaving h
  have harriving : t.seen (edgesAt t.arriving id) = t'.seen (edgesAt t'.arriving id') := by
    simpa [viewOf, hid, hid'] using congrArg View.arriving h
  have hfile : t.seen (t.leavingFile id) = t'.seen (t'.leavingFile id') := by
    simpa [viewOf, hid, hid'] using congrArg View.leavingFile h
  have hface {n n' : Json} (hn : n.IsObject) (hn' : n'.IsObject) (h : faceOf n = faceOf n')
    (d : Json) :
      n.getD "name" d = n'.getD "name" d := get_congr hn hn' (congrArg Face.name h) d
  have hnamed (n n' : Json) (hn : n.IsObject) (hn' : n'.IsObject) (h : faceOf n = faceOf n') :=
    namedIn_congr (hface hn hn' h .null) rules rule
  have hget : n.get "id" = .ok id := get_eq_ok.2 ⟨hobj, by rw [hid]; rfl⟩
  have hget' : n'.get "id" = .ok id' := get_eq_ok.2 ⟨hobj', by rw [hid']; rfl⟩
  have hleaves (type : String) : someEnd t type (namedIn rules rule) (edgesAt t.leaving id) =
      someEnd t' type (namedIn rules rule) (edgesAt t'.leaving id') :=
    someEnd_congr ht ht' hnamed (keyed_edgesAt ht.leaving _) (keyed_edgesAt ht'.leaving _) hleaving
  simp only [ruleHolds, hget, hget', leavingFrom_eq_ok hk, leavingFrom_eq_ok hk',
    arrivingAt_eq_ok hk, arrivingAt_eq_ok hk', importsPackage_eq ht hk, importsPackage_eq ht' hk',
    bind, Except.bind]
  split
  · exact hleaves "extends"
  · exact someEnd_congr ht ht' (fun n n' hn hn' h ↦
        standsIn_congr (hface hn hn' h) (get_congr hn hn' (congrArg Face.path h)) rules)
      (keyed_edgesAt ht.arriving _) (keyed_edgesAt ht'.arriving _) harriving
  · cases rules.need "decorated_by" with
    | error fault => rfl
    | ok listed =>
      exact someEnd_congr ht ht' hnamed (keyed_edgesAt ht.arriving _)
        (keyed_edgesAt ht'.arriving _) harriving
  · cases rules.need "requires_import" with
    | error fault => rfl
    | ok wanted =>
      exact someEnd_congr ht ht' (fun n n' hn hn' h ↦ isPackage_congr (hface hn hn' h .null) wanted)
        (ht.keyed_leavingFile _) (ht'.keyed_leavingFile _) hfile
  · exact hleaves "calls"
  · refine namedIn_congr ?_ rules _
    rw [get_eq_ok.2 ⟨hobj, rfl⟩, get_eq_ok.2 ⟨hobj', rfl⟩, hname]

lemma allHold_congr {rules rules' : Json} {names : List String} (h : ∀ name ∈ names,
      rules.holds name = rules'.holds name ∧ ruleHolds t rules n name =
      ruleHolds t' rules' n' name) :
    allHold t rules n names = allHold t' rules' n' names := by
  induction names with
  | nil => rfl
  | cons name rest ih =>
    obtain ⟨⟨hholds, hrule⟩, hrest⟩ := forall_mem_cons.1 h
    rw [allHold, allHold, ih hrest, hholds, hrule]

lemma recognises_congr (ht : t.WellFormed) (ht' : t'.WellFormed) (hn : HasTextId n)
    (hn' : HasTextId n')
    (h : viewOf t n = viewOf t' n') (rules : Json) :
    recognises t rules n = recognises t' rules n' := by
  rw [recognises, recognises, get_eq_ok.2 ⟨hn.isObject, rfl⟩, get_eq_ok.2 ⟨hn'.isObject, rfl⟩]
  exact allHold_congr fun name _ ↦ ⟨rfl, ruleHolds_congr ht ht' hn hn' h rules name⟩

end Roles

end CodeAtlas.Graph

namespace CodeAtlas.Graph.Enrichment

open List Fallible

variable {t t' : Topology} {frameworks : List Reading} {m n n' rule : Json} {r : Reading}
  {o : Option Json}
variable {s s' : Table Key Json × Nat}

/-- One rule on one node. -/
def applyRuleTo (t : Topology) (n rule : Json) : Except Fault Json := do
  let role ← rule.need "semantic_role"
  let type ← rule.need "core_node"
  let detection ← rule.getD "detection_rules" (.obj [])
  return (← applyTo t role type detection n).getD n

/-- The rules of a framework; one without a mapping has none. -/
def rulesOf (r : Reading) : Except Fault (List Json) := do
  match ← r with
  | some mapping => (← mapping.getD "mappings" (.arr [])).elements
  | none => return []

lemma applyFramework_eq (t : Topology) (s : Table Key Json × Nat) (r : Reading) :
    applyFramework t s r = rulesOf r >>= fun rules ↦ rules.foldlM (applyRule t) s := by
  match r with
  | .error _ => rfl
  | .ok none => rfl
  | .ok (some mapping) =>
    show applyMapping t s mapping = (mapping.getD "mappings" (.arr []) >>= _) >>= _
    rw [applyMapping, bind_assoc]

/-- Frameworks that let their rules work one after the other do what all these rules do in a row. -/
lemma foldlM_frameworks {σ : Type} {step : σ → Json → Except Fault σ}
    {stepAll : σ → Reading → Except Fault σ}
    (hstep : ∀ s r, stepAll s r = rulesOf r >>= fun rules ↦ rules.foldlM step s) {s s' : σ} :
    frameworks.foldlM stepAll s = .ok s' ↔
      ∃ lists, frameworks.mapM rulesOf = .ok lists ∧ lists.flatten.foldlM step s = .ok s' := by
  induction frameworks generalizing s with
  | nil => simp [pure_eq_ok]
  | cons r rest ih =>
    simp only [foldlM_cons, mapM_cons, hstep, bind_eq_ok, pure_eq_ok, ih]
    constructor
    · rintro ⟨middle, ⟨rules, hrules, hrun⟩, lists, hlists, hrest⟩
      refine ⟨rules :: lists, ⟨rules, hrules, lists, hlists, rfl⟩, ?_⟩
      rw [flatten_cons, foldlM_append, bind_eq_ok]
      exact ⟨middle, hrun, hrest⟩
    · rintro ⟨-, ⟨rules, hrules, lists, hlists, rfl⟩, hrun⟩
      rw [flatten_cons, foldlM_append, bind_eq_ok] at hrun
      obtain ⟨middle, hrun, hrest⟩ := hrun
      exact ⟨middle, ⟨rules, hrules, hrun⟩, lists, hlists, hrest⟩

/-- A node with the roles that frameworks give to it. -/
def giveRoles (t : Topology) (frameworks : List Reading) (n : Json) : Except Fault Json :=
  frameworks.foldlM (fun n r ↦ do (← rulesOf r).foldlM (applyRuleTo t) n) n

lemma giveRoles_iff : giveRoles t frameworks n = .ok m ↔
      ∃ lists, frameworks.mapM rulesOf = .ok lists ∧
        lists.flatten.foldlM (applyRuleTo t) n = .ok m :=
  foldlM_frameworks fun _ _ ↦ rfl

/-- Two nodes of which rules see the same. -/
structure Alike (t t' : Topology) (n n' : Json) : Prop where
  left : HasTextId n
  right : HasTextId n'
  views : viewOf t n = viewOf t' n'

lemma viewOf_setRoles (t : Topology) (hn : n.IsObject) (roles : Json) :
    viewOf t (n.setMember "semantic_roles" roles) = { viewOf t n with roles := some roles } := by
  have hkept (name : String) (hname : name ≠ "semantic_roles") :
      (n.setMember "semantic_roles" roles).member? name = n.member? name := by
    rw [Json.member?_setMember hn, if_neg hname]
  have hroles : (n.setMember "semantic_roles" roles).member? "semantic_roles" = some roles := by
    rw [Json.member?_setMember hn, if_pos rfl]
  simp only [viewOf, hroles, hkept "id" (by decide), hkept "node_type" (by decide),
    hkept "type" (by decide), hkept "name" (by decide)]

lemma Alike.setRoles (h : Alike t t' n n') (roles : Json) :
    Alike t t' (n.setMember "semantic_roles" roles) (n'.setMember "semantic_roles" roles) := by
  have hid {m : Json} (hm : HasTextId m) : HasTextId (m.setMember "semantic_roles" roles) := by
    obtain ⟨id, hid⟩ := hm
    refine ⟨id, ?_⟩
    rw [Json.member?_setMember (Json.isObject_of_member? hid), if_neg (by decide), hid]
  refine ⟨hid h.left, hid h.right, ?_⟩
  rw [viewOf_setRoles t h.left.isObject, viewOf_setRoles t' h.right.isObject, h.views]

/-- A role is added to both of two nodes that have the same roles, or to neither. -/
lemma addRole_congr {role : Json} (hn' : n'.IsObject)
    (hroles : n.member? "semantic_roles" = n'.member? "semantic_roles")
    (h : addRole n role = .ok o) :
    (o = none ∧ addRole n' role = .ok none) ∨
    ∃ roles, o = some (n.setMember "semantic_roles" roles) ∧
        addRole n' role = .ok (some (n'.setMember "semantic_roles" roles)) := by
  simp only [addRole, bind_eq_ok, Json.getD_eq_ok] at h
  obtain ⟨roles, ⟨-, hrolesOf⟩, found, hfound, h⟩ := h
  have hget : n'.getD "semantic_roles" (.arr []) = .ok roles :=
    Json.getD_eq_ok.2 ⟨hn', by rw [← hroles, hrolesOf]⟩
  simp only [addRole, hget, hfound, bind, Except.bind]
  cases found with
  | true =>
    rw [if_pos rfl, pure_eq_ok] at h
    exact .inl ⟨h.symm, rfl⟩
  | false =>
    cases roles with
    | arr rs =>
      rw [if_neg Bool.false_ne_true, pure_eq_ok] at h
      exact .inr ⟨_, h.symm, rfl⟩
    | _ => simp [throw, throwThe, MonadExceptOf.throw] at h

lemma applyTo_eq (t : Topology) (hn : n.IsObject) (role type detection : Json) :
    applyTo t role type detection n =
      if (viewOf t n).type.same type = true then
        Roles.recognises t detection n >>= fun found ↦
          if found = true then addRole n role else pure none
      else pure none := by
  rw [applyTo, Json.get_eq_ok.2 ⟨hn, rfl⟩]
  show (n.getD "node_type" _ >>= _) = _
  rw [Json.getD_eq_ok.2 ⟨hn, rfl⟩]
  rfl

section

variable (ht : t.WellFormed) (ht' : t'.WellFormed) (hn : Alike t t' n n')
include ht ht' hn

/-- A rule adds its role to both of two nodes of the same view, or to neither. -/
lemma applyTo_congr {role type detection : Json} (h : applyTo t role type detection n = .ok o) :
    (o = none ∧ applyTo t' role type detection n' = .ok none) ∨
      ∃ roles, o = some (n.setMember "semantic_roles" roles) ∧
        applyTo t' role type detection n' = .ok (some (n'.setMember "semantic_roles" roles)) := by
  have hroles : n.member? "semantic_roles" = n'.member? "semantic_roles" :=
    congrArg View.roles hn.views
  rw [applyTo_eq t hn.left.isObject, hn.views, Roles.recognises_congr ht ht' hn.left
    hn.right hn.views] at h
  rw [applyTo_eq t' hn.right.isObject]
  split at h
  next htype =>
    obtain ⟨found, hfound, h⟩ := bind_eq_ok.1 h
    simp only [htype, hfound, if_true, bind, Except.bind]
    cases found with
    | true => exact addRole_congr hn.right.isObject hroles h
    | false => exact .inl ⟨(pure_eq_ok.1 h).symm, rfl⟩
  next htype =>
    simp only [htype]
    exact .inl ⟨(pure_eq_ok.1 h).symm, rfl⟩

lemma applyRuleTo_follows (h : applyRuleTo t n rule = .ok m) :
    ∃ m', applyRuleTo t' n' rule = .ok m' ∧ Alike t t' m m' := by
  simp only [applyRuleTo, bind_eq_ok, pure_eq_ok] at h
  obtain ⟨role, hrole, type, htype, detection, hdetection, o, ho, rfl⟩ := h
  simp only [applyRuleTo, hrole, htype, hdetection, bind, Except.bind]
  obtain ⟨rfl, ho'⟩ | ⟨roles, rfl, ho'⟩ := applyTo_congr ht ht' hn ho
  · rw [ho']
    exact ⟨n', rfl, hn⟩
  · rw [ho']
    exact ⟨_, rfl, hn.setRoles roles⟩

lemma giveRoles_follows (h : giveRoles t frameworks n = .ok m) :
    ∃ m', giveRoles t' frameworks n' = .ok m' ∧ Alike t t' m m' := by
  obtain ⟨lists, hlists, hrun⟩ := giveRoles_iff.1 h
  obtain ⟨m', hm', halike⟩ := foldlM_follows (f := applyRuleTo t) (Alike t t')
    (fun _ _ _ _ hn h ↦ applyRuleTo_follows ht ht' hn h) hn hrun
  exact ⟨m', giveRoles_iff.2 ⟨lists, hlists, hm'⟩, halike⟩

lemma rolesOf_giveRoles_congr {m' : Json} (h : giveRoles t frameworks n = .ok m)
    (h' : giveRoles t' frameworks n' = .ok m') : rolesOf m = rolesOf m' := by
  obtain ⟨m'', hm'', hviews⟩ := giveRoles_follows ht ht' hn h
  cases h'.symm.trans hm''
  have hroles : m.member? "semantic_roles" = m'.member? "semantic_roles" :=
    congrArg View.roles hviews.views
  rw [rolesOf, rolesOf, hroles]

end

/-- Two tables have the same keys, and a relation holds between the nodes at each place. -/
def Matched (R : Json → Json → Prop) (nodes done : Table Key Json) : Prop :=
  List.Forall₂ (fun e e' ↦ e'.1 = e.1 ∧ R e.2 e'.2) nodes done

namespace Matched

variable {R S T : Json → Json → Prop} {nodes middle done : Table Key Json}

lemma keys_eq (h : Matched R nodes done) : done.keys = nodes.keys := by
  induction h with
  | nil => rfl
  | cons hhead _ ih => simpa [Table.keys] using ⟨hhead.1, ih⟩

lemma get? (h : Matched R nodes done) {k : Key} (hn : nodes.get? k = some n) :
    ∃ m, R n m ∧ done.get? k = some m := by
  induction h with
  | nil => simp at hn
  | @cons e e' rest rest' hhead _ ih =>
    rw [Table.get?_cons] at hn ⊢
    rw [hhead.1]
    split at hn
    next hk =>
      cases hn
      exact ⟨e'.2, hhead.2, if_pos hk⟩
    next hk =>
      obtain ⟨m, hm, hget⟩ := ih hn
      exact ⟨m, hm, by rw [if_neg hk, hget]⟩

lemma exists_of_mem (h : Matched R nodes done) {k : Key} (hm : (k, m) ∈ done) :
    ∃ n, (k, n) ∈ nodes ∧ R n m := by
  obtain ⟨⟨_, n⟩, hn, rfl, hR⟩ := exists_left_of_mem h hm
  exact ⟨n, hn, hR⟩

lemma imp (h : Matched R nodes done) (hS : ∀ n m, R n m → S n m) : Matched S nodes done :=
  Forall₂.imp (fun _ _ h ↦ ⟨h.1, hS _ _ h.2⟩) h

lemma trans (h : Matched R nodes middle) (h' : Matched S middle done)
    (hT : ∀ n m m', R n m → S m m' → T n m') : Matched T nodes done := by
  induction h generalizing done with
  | nil =>
    cases h'
    exact .nil
  | cons hhead _ ih =>
    cases h' with
    | cons hhead' hrest' =>
      exact .cons ⟨hhead'.1.trans hhead.1, hT _ _ _ hhead.2 hhead'.2⟩ (ih hrest')

end Matched

/-- Every entry of a table has come from the entry at its place in another one. -/
abbrev Entrywise (f : Json → Except Fault Json) : Table Key Json → Table Key Json → Prop :=
  Matched fun n m ↦ f n = .ok m

lemma entrywise_applyRule (h : applyRule t s rule = .ok s') :
    Entrywise (applyRuleTo t · rule) s.1 s'.1 := by
  simp only [applyRule, bind_eq_ok] at h
  obtain ⟨role, hrole, type, htype, detection, hdetection, hrun⟩ := h
  have hstart : Entrywise (applyRuleTo t · rule) [] [] := .nil
  refine foldlM_invariant (fun met (s : Table Key Json × Nat) ↦
    Entrywise (applyRuleTo t · rule) met s.1) ?_ hstart hrun
  rintro met ⟨done, count⟩ ⟨id, n⟩ s' hmet hn
  obtain ⟨o, ho, hs'⟩ := bind_eq_ok.1 hn
  have hrule : applyRuleTo t n rule = .ok (o.getD n) := by
    simp only [applyRuleTo, hrole, htype, hdetection, ho, bind, Except.bind]
    rfl
  have hdone : s'.1 = done ++ [(id, o.getD n)] := by
    cases o with
    | none => rw [← pure_eq_ok.1 hs', Option.getD_none]
    | some m => rw [← pure_eq_ok.1 hs', Option.getD_some]
  rw [hdone]
  exact rel_append hmet (.cons ⟨rfl, hrule⟩ .nil)

lemma entrywise_rules {rules : List Json} (h : rules.foldlM (applyRule t) s = .ok s') :
    Entrywise (fun n ↦ rules.foldlM (applyRuleTo t) n) s.1 s'.1 := by
  induction rules generalizing s with
  | nil =>
    rw [foldlM_nil, pure_eq_ok] at h
    subst h
    exact forall₂_same.2 fun e _ ↦ ⟨rfl, rfl⟩
  | cons rule rules ih =>
    rw [foldlM_cons, bind_eq_ok] at h
    obtain ⟨middle, hrule, hrest⟩ := h
    exact (entrywise_applyRule hrule).trans (ih hrest) fun _ _ _ h h' ↦ bind_eq_ok.2 ⟨_, h, h'⟩

lemma entrywise_giveRoles
    (h : frameworks.foldlM (applyFramework t) s = .ok s') :
    Entrywise (giveRoles t frameworks) s.1 s'.1 := by
  obtain ⟨lists, hlists, hrun⟩ := (foldlM_frameworks (applyFramework_eq t)).1 h
  exact (entrywise_rules hrun).imp fun _ _ h ↦ giveRoles_iff.2 ⟨lists, hlists, h⟩

end CodeAtlas.Graph.Enrichment
