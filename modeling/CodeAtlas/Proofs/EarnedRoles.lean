import CodeAtlas.Proofs.RoleGiving

/-!
# Which roles a node earns

A rule gives its role to a node if it is about nodes of this kind and all that it asks for holds. It
asks about names and edges and never about roles, so what one rule has given to a node has no
bearing on the next. A node therefore ends up with the roles it had, followed by those it earns,
each of them once; and whether all rules can be tried on it does not depend on their order.
-/

namespace CodeAtlas.Graph.Enrichment

open Fallible List Roles Json

variable {frameworks : List Reading} {rs : List Json} {r name : String}
variable {m n rule : Json} {t : Topology}

/-! ## Rules do not look at roles -/

section

variable (h : structureOf n = structureOf m)
include h

lemma getD_congr_of_structureOf (hname : name ≠ "semantic_roles") (d : Json) :
    n.getD name d = m.getD name d := by
  have hkept (v : Json) : (structureOf v).getD name d = v.getD name d := by
    cases v with
    | obj members => rw [structureOf, Json.getD, Json.getD, Table.get?_erase_of_ne hname]
    | _ => rfl
  rw [← hkept n, ← hkept m, h]

lemma get_congr_of_structureOf (hname : name ≠ "semantic_roles") : n.get name = m.get name :=
  getD_congr_of_structureOf h hname .null

lemma ruleHolds_of_structureOf (t : Topology) (rules : Json) (rule : String) :
    ruleHolds t rules n rule = ruleHolds t rules m rule := by
  rw [ruleHolds, ruleHolds, get_congr_of_structureOf h (by decide)]
  simp only [namedIn_congr (get_congr_of_structureOf h (by decide))]

lemma recognises_of_structureOf (t : Topology) (rules : Json) :
    recognises t rules n = recognises t rules m := by
  rw [recognises, recognises, get_congr_of_structureOf h (by decide),
    allHold_congr fun name _ ↦ ⟨rfl, ruleHolds_of_structureOf h t rules name⟩]

end

/-! ## One rule on one node -/

/-- The kind of a node, for which the newer name of the member counts first. -/
def kindOf (n : Json) : Json := (n.member? "node_type").getD ((n.member? "type").getD .null)

lemma kindOf_congr (h : structureOf n = structureOf m) : kindOf n = kindOf m := by
  rw [kindOf, kindOf, member?_of_structureOf_eq h (by decide),
    member?_of_structureOf_eq h (by decide)]

def detectionOf (rule : Json) : Json := (rule.member? "detection_rules").getD (.obj [])

/-- A rule is about nodes of this kind, and all that it asks for holds of this one. -/
def Earns (t : Topology) (n rule : Json) : Prop :=
  ∃ kind, rule.member? "core_node" = some kind ∧ (kindOf n).same kind = true ∧
    Roles.recognises t (detectionOf rule) n = .ok true

lemma earns_congr (h : structureOf n = structureOf m) (t : Topology) (rule : Json) :
    Earns t n rule ↔ Earns t m rule := by
  simp only [Earns, kindOf_congr h, recognises_of_structureOf h]

/-- A rule has all that trying it takes. -/
def Readable (rule : Json) : Prop :=
  ∃ role kind, rule.member? "semantic_role" = some role ∧ rule.member? "core_node" = some kind

/-- What a rule can do to a node: nothing, if the node does not earn the role or has it; or else it
puts the role behind those that the node has. -/
lemma applyTo_cases {role kind detection : Json} {o : Option Json}
    (h : applyTo t role kind detection n = .ok o) : n.IsObject ∧
      ((o = none ∧ ((kindOf n).same kind = true → recognises t detection n = .ok true →
          (rolesOf n).holds role = .ok true)) ∨
        (kindOf n).same kind = true ∧ recognises t detection n = .ok true ∧
          (rolesOf n).holds role = .ok false ∧ ∃ rs, rolesOf n = .arr rs ∧
            o = some (n.setMember "semantic_roles" (.arr (rs ++ [role])))) := by
  have hn : n.IsObject := by
    obtain ⟨type, htype, -⟩ := bind_eq_ok.1 h
    exact (get_eq_ok.1 htype).1
  refine ⟨hn, ?_⟩
  rw [applyTo_eq t hn] at h
  by_cases hsame : (kindOf n).same kind = true
  · rw [if_pos (show (viewOf t n).type.same kind = true from hsame)] at h
    obtain ⟨found, hfound, h⟩ := bind_eq_ok.1 h
    cases found with
    | false =>
      rw [if_neg Bool.false_ne_true, pure_eq_ok] at h
      refine .inl ⟨h.symm, fun _ htrue ↦ ?_⟩
      rw [hfound] at htrue
      cases htrue
    | true =>
      rw [if_pos rfl] at h
      simp only [addRole, bind_eq_ok, getD_eq_ok] at h
      obtain ⟨roles, ⟨-, hroles⟩, held, hheld, h⟩ := h
      rw [← hroles] at hheld
      cases held with
      | true =>
        rw [if_pos rfl, pure_eq_ok] at h
        exact .inl ⟨h.symm, fun _ _ ↦ hheld⟩
      | false =>
        rw [if_neg Bool.false_ne_true] at h
        cases roles with
        | arr rs =>
          rw [pure_eq_ok] at h
          exact .inr ⟨hsame, hfound, hheld, rs, hroles, h.symm⟩
        | _ => simp [throw, throwThe, MonadExceptOf.throw] at h
  · rw [if_neg (show ¬(viewOf t n).type.same kind = true from hsame), pure_eq_ok] at h
    exact .inl ⟨h.symm, fun hsame' ↦ absurd hsame' hsame⟩

lemma applyRuleTo_cases (h : applyRuleTo t n rule = .ok m) :
    ∃ role, rule.member? "semantic_role" = some role ∧ n.IsObject ∧
      ((m = n ∧ (Earns t n rule → (rolesOf n).holds role = .ok true)) ∨
        Earns t n rule ∧ (rolesOf n).holds role = .ok false ∧
          ∃ rs, rolesOf n = .arr rs ∧ m = n.setMember "semantic_roles" (.arr (rs ++ [role]))) := by
  simp only [applyRuleTo, bind_eq_ok, pure_eq_ok, need_eq_ok, getD_eq_ok] at h
  obtain ⟨role, hrole, kind, hkind, detection, ⟨-, rfl⟩, o, ho, rfl⟩ := h
  refine ⟨role, hrole, ?_⟩
  obtain ⟨hn, ⟨rfl, hheld⟩ | ⟨hsame, hfound, hheld, rs, hrs, rfl⟩⟩ := applyTo_cases ho
  · refine ⟨hn, .inl ⟨rfl, fun hearns ↦ ?_⟩⟩
    obtain ⟨kind', hkind', hsame, hfound⟩ := hearns
    cases hkind.symm.trans hkind'
    exact hheld hsame hfound
  · exact ⟨hn, .inr ⟨⟨kind, hkind, hsame, hfound⟩, hheld, rs, hrs, rfl⟩⟩

lemma structureOf_applyRuleTo (h : applyRuleTo t n rule = .ok m) :
    structureOf m = structureOf n := by
  obtain ⟨role, -, -, ⟨rfl, -⟩ | ⟨-, -, rs, -, rfl⟩⟩ := applyRuleTo_cases h
  · rfl
  · exact structureOf_setMember n _

lemma applyRuleTo_completes : (∃ m, applyRuleTo t n rule = .ok m) ↔ Readable rule ∧ n.IsObject ∧
      ∀ role kind, rule.member? "semantic_role" = some role → rule.member? "core_node" = some kind →
        (kindOf n).same kind = true → ∃ found, recognises t (detectionOf rule) n = .ok found ∧
          (found = true → ∃ o, addRole n role = .ok o) := by
  simp only [applyRuleTo, bind_eq_ok, pure_eq_ok, need_eq_ok, getD_eq_ok]
  constructor
  · rintro ⟨-, role, hrole, kind, hkind, detection, ⟨-, rfl⟩, o, ho, -⟩
    have hn : n.IsObject := by
      obtain ⟨type, htype, -⟩ := bind_eq_ok.1 ho
      exact (get_eq_ok.1 htype).1
    refine ⟨⟨role, kind, hrole, hkind⟩, hn, fun role' kind' hrole' hkind' hsame ↦ ?_⟩
    cases hrole.symm.trans hrole'
    cases hkind.symm.trans hkind'
    rw [applyTo_eq t hn, if_pos (show (viewOf t n).type.same kind = true from hsame)] at ho
    obtain ⟨found, hfound, ho⟩ := bind_eq_ok.1 ho
    refine ⟨found, hfound, fun htrue ↦ ⟨o, ?_⟩⟩
    rwa [if_pos htrue] at ho
  · rintro ⟨⟨role, kind, hrole, hkind⟩, hn, hall⟩
    have htried : ∃ o, applyTo t role kind (detectionOf rule) n = .ok o := by
      rw [applyTo_eq t hn]
      by_cases hsame : (kindOf n).same kind = true
      · obtain ⟨found, hfound, hadd⟩ := hall role kind hrole hkind hsame
        rw [if_pos (show (viewOf t n).type.same kind = true from hsame), hfound]
        by_cases htrue : found = true
        · obtain ⟨o, ho⟩ := hadd htrue
          exact ⟨o, by rw [← ho]; exact if_pos htrue⟩
        · exact ⟨none, if_neg htrue⟩
      · exact ⟨none, if_neg (show ¬(viewOf t n).type.same kind = true from hsame)⟩
    obtain ⟨o, ho⟩ := htried
    exact ⟨_, role, hrole, kind, hkind, _, ⟨isObject_of_member? hrole, rfl⟩, o, ho, rfl⟩

/-! ## Many rules on one node -/

/-- A node differs from what it was in its roles only, and these are the old ones followed by the
given ones. -/
structure Appends (n m : Json) (added : List Json) : Prop where
  structures : structureOf m = structureOf n
  roles : added = [] ∧ m = n ∨ ∃ rs, rolesOf n = .arr rs ∧ rolesOf m = .arr (rs ++ added)

lemma rolesOf_setMember (hn : n.IsObject) (roles : Json) :
    rolesOf (n.setMember "semantic_roles" roles) = roles := by
  rw [rolesOf, member?_setMember hn, if_pos rfl, Option.getD_some]

lemma isObject_congr (h : structureOf n = structureOf m) : n.IsObject ↔ m.IsObject := by
  have hkept (v : Json) : (structureOf v).IsObject ↔ v.IsObject := by
    cases v with
    | obj members => exact ⟨fun _ ↦ ⟨members, rfl⟩, fun _ ↦ ⟨_, rfl⟩⟩
    | _ => rfl
  rw [← hkept n, ← hkept m, h]

lemma addRole_completes (hn : n.IsObject) (hrs : rolesOf n = .arr rs) (role : Json) :
    ∃ o, addRole n role = .ok o := by
  rw [addRole, getD_eq_ok.2 ⟨hn, hrs⟩]
  by_cases hheld : (rs.any fun w ↦ w.alike role) = true
  · exact ⟨none, if_pos hheld⟩
  · exact ⟨_, if_neg hheld⟩

namespace Appends

variable {m' : Json} {added : List Json}

lemma refl (n : Json) : Appends n n [] := ⟨rfl, .inl ⟨rfl, rfl⟩⟩

lemma applyRuleTo (hn : Appends n m added) (h : applyRuleTo t m rule = .ok m') :
    ∃ role, rule.member? "semantic_role" = some role ∧
      ((m' = m ∧ (Earns t n rule → (rolesOf m).holds role = .ok true)) ∨
        Earns t n rule ∧ (rolesOf m).holds role = .ok false ∧ Appends n m' (added ++ [role])) := by
  obtain ⟨role, hrole, hm, ⟨rfl, hheld⟩ | ⟨hearns, hheld, rs, hrs, rfl⟩⟩ := applyRuleTo_cases h
  · exact ⟨role, hrole,
      .inl ⟨rfl, fun hearns ↦ hheld ((earns_congr hn.structures t rule).2 hearns)⟩⟩
  · refine ⟨role, hrole, .inr ⟨(earns_congr hn.structures t rule).1 hearns, hheld, ?_, .inr ?_⟩⟩
    · rw [structureOf_setMember, hn.structures]
    · rw [rolesOf_setMember hm]
      obtain ⟨rfl, rfl⟩ | ⟨rs', hrs', hm'⟩ := hn.roles
      · exact ⟨rs, hrs, by simp⟩
      · obtain rfl : rs = rs' ++ added := arr.inj (hrs.symm.trans hm')
        exact ⟨rs', hrs', by simp⟩

lemma completes_iff (hn : Appends n m added) : (∃ m', Enrichment.applyRuleTo t m rule = .ok m') ↔
      ∃ m', Enrichment.applyRuleTo t n rule = .ok m' := by
  have hadd (hm : m.IsObject) (role : Json) :
      (∃ o, addRole m role = .ok o) ↔ ∃ o, addRole n role = .ok o := by
    obtain ⟨-, rfl⟩ | ⟨rs, hrs, hmrs⟩ := hn.roles
    · rfl
    · have hobject := (isObject_congr hn.structures).1 hm
      exact ⟨fun _ ↦ addRole_completes hobject hrs role, fun _ ↦ addRole_completes hm hmrs role⟩
  rw [applyRuleTo_completes, applyRuleTo_completes, ← isObject_congr hn.structures,
    kindOf_congr hn.structures, recognises_of_structureOf hn.structures]
  refine and_congr_right fun _ ↦ and_congr_right fun hm ↦ ?_
  simp only [hadd hm]

lemma of_rules {rules : List Json} (h : rules.foldlM (Enrichment.applyRuleTo t) n = .ok m) :
    ∃ added, Appends n m added := by
  refine foldlM_invariant (fun _ m ↦ ∃ added, Appends n m added) ?_ ⟨[], refl n⟩ h
  intro met m rule m' hmet hm
  obtain ⟨added, hadded⟩ := hmet
  obtain ⟨role, -, ⟨rfl, -⟩ | ⟨-, -, happends⟩⟩ := hadded.applyRuleTo hm
  · exact ⟨added, hadded⟩
  · exact ⟨_, happends⟩

end Appends

/-! ## Roles that are texts -/

def HasRole (n : Json) (r : String) : Prop := (rolesOf n).holds (.str r) = .ok true

lemma hasRole_iff_mem (h : rolesOf n = .arr rs) (r : String) : HasRole n r ↔ .str r ∈ rs := by
  simp only [HasRole, h, holds, Except.ok.injEq, any_eq_true, alike_str]
  exact ⟨fun ⟨v, hv, heq⟩ ↦ heq ▸ hv, fun hr ↦ ⟨_, hr, rfl⟩⟩

/-- How many roles a node has. -/
def roleCount (n : Json) : Nat :=
  match rolesOf n with
  | .arr rs => rs.length
  | _ => 0

/-- How often a node lists a role. -/
def timesListed (n : Json) (r : String) : Nat :=
  match rolesOf n with
  | .arr rs => rs.count (.str r)
  | _ => 0

namespace Appends

variable {texts : List String}

lemma hasRole_iff (h : Appends n m (texts.map .str)) (r : String) :
    HasRole m r ↔ HasRole n r ∨ r ∈ texts := by
  obtain ⟨hnil, rfl⟩ | ⟨rs, hrs, hm⟩ := h.roles
  · rw [map_eq_nil_iff.1 hnil]
    simp
  · rw [hasRole_iff_mem hrs, hasRole_iff_mem hm]
    simp

lemma roleCount_eq {added : List Json} (h : Appends n m added) :
    roleCount m = roleCount n + added.length := by
  obtain ⟨rfl, rfl⟩ | ⟨rs, hrs, hm⟩ := h.roles
  · rfl
  · simp only [roleCount, hrs, hm, length_append]

lemma timesListed_eq (h : Appends n m (texts.map .str)) (r : String) :
    timesListed m r = timesListed n r + texts.count r := by
  obtain ⟨hnil, rfl⟩ | ⟨rs, hrs, hm⟩ := h.roles
  · rw [map_eq_nil_iff.1 hnil]
    rfl
  · have hcount : (texts.map str).count (.str r) = texts.count r :=
      count_map_of_injective texts str (fun _ _ h ↦ str.inj h) r
    simp only [timesListed, hrs, hm, count_append, hcount]

end Appends

lemma timesListed_eq_zero (h : ¬HasRole n r) : timesListed n r = 0 := by
  rw [timesListed]
  split
  next rs hrs =>
    rw [hasRole_iff_mem hrs] at h
    exact count_eq_zero.2 h
  next => rfl

/-- Some of the rules gives a role to a node. -/
def Earned (t : Topology) (n : Json) (rules : List Json) (r : String) : Prop :=
  ∃ rule ∈ rules, rule.member? "semantic_role" = some (.str r) ∧ Earns t n rule

def NamesRole (rule : Json) : Prop := ∃ r, rule.member? "semantic_role" = some (.str r)

/-- A node that was met by rules has been given the roles that it earns and did not have, each of
them once. -/
structure Given (t : Topology) (n : Json) (met : List Json) (m : Json) (texts : List String) :
    Prop where
  appends : Appends n m (texts.map .str)
  nodup : texts.Nodup
  mem_iff : ∀ r, r ∈ texts ↔ ¬HasRole n r ∧ Earned t n met r

namespace Given

variable {m' : Json} {met rules : List Json} {texts : List String}

lemma refl (t : Topology) (n : Json) : Given t n [] n [] :=
  ⟨.refl n, nodup_nil, by simp [Earned]⟩

lemma step (hmet : Given t n met m texts) (hrule : NamesRole rule)
    (h : applyRuleTo t m rule = .ok m') : ∃ texts', Given t n (met ++ [rule]) m' texts' := by
  obtain ⟨r, hr⟩ := hrule
  have hearned (r' : String) :
      Earned t n (met ++ [rule]) r' ↔ Earned t n met r' ∨ r = r' ∧ Earns t n rule := by
    simp only [Earned, mem_append, mem_singleton, or_and_right, exists_or,
      exists_eq_left, hr, Option.some.injEq, str.injEq]
  obtain ⟨role, hrole, ⟨rfl, hheld⟩ | ⟨hearns, hheld, happends⟩⟩ := hmet.appends.applyRuleTo h
  · cases hr.symm.trans hrole
    refine ⟨texts, hmet.appends, hmet.nodup, fun r' ↦ ?_⟩
    rw [hearned, hmet.mem_iff]
    refine and_congr_right fun hnot ↦ ⟨.inl, ?_⟩
    rintro (hearned | ⟨rfl, hearns⟩)
    · exact hearned
    · have hmem := ((hmet.appends.hasRole_iff r).1 (hheld hearns)).resolve_left hnot
      exact ((hmet.mem_iff r).1 hmem).2
  · cases hr.symm.trans hrole
    have hnew : ¬(HasRole n r ∨ r ∈ texts) := by
      rw [← hmet.appends.hasRole_iff, HasRole, hheld]
      exact fun h ↦ Bool.false_ne_true (Except.ok.inj h)
    rw [not_or] at hnew
    refine ⟨texts ++ [r], by simpa using happends, ?_, fun r' ↦ ?_⟩
    · exact hmet.nodup.append (nodup_singleton r) (by simpa using hnew.2)
    · rw [hearned, mem_append, mem_singleton, hmet.mem_iff]
      constructor
      · rintro (⟨hnot, hearned⟩ | rfl)
        · exact ⟨hnot, .inl hearned⟩
        · exact ⟨hnew.1, .inr ⟨rfl, hearns⟩⟩
      · rintro ⟨hnot, hearned | ⟨rfl, -⟩⟩
        · exact .inl ⟨hnot, hearned⟩
        · exact .inr rfl

lemma of_rules (hrules : ∀ rule ∈ rules, NamesRole rule)
    (h : rules.foldlM (applyRuleTo t) n = .ok m) : ∃ texts, Given t n rules m texts := by
  refine foldlM_invariant (fun met m ↦ (∀ rule ∈ met, NamesRole rule) →
    ∃ texts, Given t n met m texts) ?_ (fun _ ↦ ⟨[], refl t n⟩) h hrules
  intro met m rule m' hmet hm hnames
  obtain ⟨texts, htexts⟩ := hmet fun rule hrule ↦ hnames rule (mem_append_left _ hrule)
  exact htexts.step (hnames rule (by simp)) hm

lemma hasRole_iff (h : Given t n rules m texts) (r : String) :
    HasRole m r ↔ HasRole n r ∨ Earned t n rules r := by
  rw [h.appends.hasRole_iff, h.mem_iff]
  tauto

lemma timesListed_eq (h : Given t n rules m texts) (htwice : 2 ≤ timesListed m r) :
    timesListed m r = timesListed n r := by
  have htimes := h.appends.timesListed_eq r
  by_cases hr : r ∈ texts
  · have hone : texts.count r = 1 := count_eq_one_of_mem h.nodup hr
    have hzero := timesListed_eq_zero ((h.mem_iff r).1 hr).1
    omega
  · rw [htimes, count_eq_zero.2 hr, Nat.add_zero]

lemma length_eq {rules' : List Json} {texts' : List String} (h : Given t n rules m texts)
    (h' : Given t n rules' m' texts') (hrules : ∀ rule, rule ∈ rules ↔ rule ∈ rules') :
    texts.length = texts'.length := by
  have hmem (r : String) : r ∈ texts ↔ r ∈ texts' := by
    rw [h.mem_iff, h'.mem_iff]
    simp only [Earned, hrules]
  exact ((perm_ext_iff_of_nodup h.nodup h'.nodup).2 hmem).length_eq

end Given

/-! ## Frameworks as lists of rules -/

lemma Appends.of_giveRoles (h : giveRoles t frameworks n = .ok m) : ∃ added, Appends n m added := by
  obtain ⟨lists, -, hrun⟩ := giveRoles_iff.1 h
  exact of_rules hrun

lemma structureOf_giveRoles (h : giveRoles t frameworks n = .ok m) :
    structureOf m = structureOf n := by
  obtain ⟨added, happends⟩ := Appends.of_giveRoles h
  exact happends.structures

def Active (frameworks : List Reading) (rule : Json) : Prop :=
  ∃ r ∈ frameworks, ∃ rules, rulesOf r = .ok rules ∧ rule ∈ rules

lemma active_iff {lists : List (List Json)} (h : frameworks.mapM rulesOf = .ok lists)
    (rule : Json) : Active frameworks rule ↔ rule ∈ lists.flatten := by
  rw [mapM_eq_ok] at h
  induction h with
  | nil => simp [Active]
  | @cons r rules rest rest' hr _ ih =>
    rw [flatten_cons, mem_append, ← ih]
    simp only [Active, mem_cons, exists_eq_or_imp, hr, Except.ok.injEq, exists_eq_left']

end CodeAtlas.Graph.Enrichment
