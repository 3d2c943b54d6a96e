import CodeAtlas.Catalog.Documents
import CodeAtlas.Proofs.DeclaredRoles

/-!
# Keys that nobody evaluates

The detection rules of a mapping may have keys that are not among those that are evaluated. Such a
key is passed over, and what remains of the rule decides. Consequently a rule may ask for something
that was never looked at and still give its role, and a rule that has no other keys gives it to
every node of its kind.
-/

namespace CodeAtlas.Json

lemma need_setMember_of_ne {v w : Json} {name other : String} (h : other ≠ name) :
    (v.setMember name w).need other = v.need other := by
  cases v with
  | obj m => simp only [setMember, need, Table.get?_put, if_neg h]
  | _ => rfl

end CodeAtlas.Json

namespace CodeAtlas.Graph.Enrichment

open List Fallible Json Roles Table

variable {r : String} {t : Topology}

/-! ## What is evaluated of a rule -/

/-- Detection rules without the keys that are not evaluated. -/
def evaluatedPart : Json → Json
  | .obj members => .obj (members.filter fun e ↦ Roles.ruleNames.contains e.1)
  | v => v

/-- A rule with what is evaluated of its detection rules. -/
def evaluatedRule (rule : Json) : Json :=
  match rule.member? "detection_rules" with
  | some detection => rule.setMember "detection_rules" (evaluatedPart detection)
  | none => rule

/-- A mapping with what is evaluated of its rules. -/
def evaluatedMapping (mapping : Json) : Json :=
  match mapping.member? "mappings" with
  | some (.arr rules) => mapping.setMember "mappings" (.arr (rules.map evaluatedRule))
  | _ => mapping

def evaluatedFramework (r : Reading) : Reading := r.map (Option.map evaluatedMapping)

section EvaluatedPart

variable {name : String} (hname : name ∈ Roles.ruleNames) (detection : Json)

include hname

lemma member?_evaluatedPart : (evaluatedPart detection).member? name = detection.member? name := by
  cases detection with
  | obj members =>
    rw [evaluatedPart, member?_obj, member?_obj,
      get?_filter fun key ↦ ruleNames.contains key, if_pos (contains_iff_mem.2 hname)]
  | _ => rfl

lemma holds_evaluatedPart : (evaluatedPart detection).holds name = detection.holds name ∧
    (evaluatedPart detection).need name = detection.need name := by
  have hmember := member?_evaluatedPart hname detection
  cases detection with
  | obj members =>
    rw [evaluatedPart, member?_obj, member?_obj] at hmember
    simp only [evaluatedPart, holds, need, Table.contains, hmember, and_self]
  | _ => exact ⟨rfl, rfl⟩

lemma need_evaluatedPart : (evaluatedPart detection).need name = detection.need name :=
  (holds_evaluatedPart hname detection).2

/-- A rule that is evaluated finds what it asks for in the evaluated part. -/
lemma ruleHolds_evaluatedPart (t : Topology) (n : Json) :
    ruleHolds t (evaluatedPart detection) n name = ruleHolds t detection n name := by
  have hnamed : namedIn (evaluatedPart detection) name = namedIn detection name := by
    funext m
    rw [namedIn, namedIn, need_evaluatedPart hname]
  have hstands : standsIn (evaluatedPart detection) = standsIn detection := by
    funext m
    rw [standsIn, standsIn, need_evaluatedPart (by decide)]
  refine bind_congr fun id ↦ ?_
  split
  · rw [hnamed]
  · rw [hstands]
  · rw [hnamed, need_evaluatedPart (by decide)]
  · rw [importsPackage, importsPackage, need_evaluatedPart (by decide)]
  · rw [hnamed]
  · rw [hnamed]

end EvaluatedPart

lemma recognises_evaluatedPart (t : Topology) (detection n : Json) :
    recognises t (evaluatedPart detection) n = recognises t detection n := by
  rw [recognises, recognises, allHold_congr fun name hname ↦
    ⟨(holds_evaluatedPart hname detection).1, ruleHolds_evaluatedPart hname detection t n⟩]

/-! ## Rules and frameworks -/

lemma need_evaluatedRule (rule : Json) {name : String} (hname : name ≠ "detection_rules") :
    (evaluatedRule rule).need name = rule.need name := by
  rw [evaluatedRule]
  split
  · exact need_setMember_of_ne hname
  · rfl

lemma detection_evaluatedRule (rule : Json) :
    (evaluatedRule rule).getD "detection_rules" (.obj []) =
      evaluatedPart <$> rule.getD "detection_rules" (.obj []) := by
  rw [evaluatedRule]
  split
  next detection hdetection =>
    have hobject := isObject_of_member? hdetection
    rw [getD_eq_ok.2 ⟨hobject, rfl⟩, hdetection]
    refine getD_eq_ok.2 ⟨isObject_setMember hobject _ _, ?_⟩
    rw [member?_setMember hobject, if_pos rfl]
    rfl
  next hnone =>
    cases rule with
    | obj members =>
      rw [getD_eq_ok.2 ⟨⟨_, rfl⟩, rfl⟩, hnone]
      rfl
    | _ => rfl

lemma applyRule_evaluatedRule (t : Topology) (s : Table Key Json × Nat) (rule : Json) :
    applyRule t s (evaluatedRule rule) = applyRule t s rule := by
  have hnext (role kind detection : Json) : applyNext t role kind (evaluatedPart detection) =
      applyNext t role kind detection := by
    funext s e
    simp only [applyNext, applyTo, recognises_evaluatedPart]
  simp only [applyRule_eq,
    need_evaluatedRule rule (show "semantic_role" ≠ "detection_rules" by decide),
    need_evaluatedRule rule (show "core_node" ≠ "detection_rules" by decide),
    detection_evaluatedRule, bind_map_left, hnext]

/-- The elements of a value that is not a list are texts, and no rules. -/
lemma evaluatedRule_element {v e : Json} {es : List Json} (hv : ∀ rules, v ≠ .arr rules)
    (h : v.elements = .ok es) (he : e ∈ es) : evaluatedRule e = e := by
  suffices htext : ∃ s, e = .str s by
    obtain ⟨s, rfl⟩ := htext
    rfl
  cases v with
  | arr rules => exact absurd rfl (hv rules)
  | obj m =>
    cases h
    obtain ⟨entry, -, rfl⟩ := mem_map.1 he
    exact ⟨_, rfl⟩
  | str s =>
    cases h
    obtain ⟨c, -, rfl⟩ := mem_map.1 he
    exact ⟨_, rfl⟩
  | _ => cases h

lemma rules_evaluatedMapping (mapping : Json) :
    ((evaluatedMapping mapping).getD "mappings" (.arr []) >>= elements) =
      map evaluatedRule <$> (mapping.getD "mappings" (.arr []) >>= elements) := by
  rw [evaluatedMapping]
  split
  next rules hrules =>
    have hobject := isObject_of_member? hrules
    rw [getD_eq_ok.2 ⟨hobject, rfl⟩, hrules]
    refine (congrArg (· >>= elements) (getD_eq_ok.2 ⟨isObject_setMember hobject _ _, rfl⟩)).trans ?_
    rw [member?_setMember hobject, if_pos rfl]
    rfl
  next hother =>
    -- The mapping stays as it is, and whatever is found in place of a list of rules does so too.
    cases hrules : mapping.getD "mappings" (.arr []) >>= elements with
    | error => rfl
    | ok es =>
      obtain ⟨v, hv, hes⟩ := bind_eq_ok.1 hrules
      obtain ⟨-, hv⟩ := getD_eq_ok.1 hv
      refine congrArg Except.ok ((map_congr_left fun e he ↦ ?_).trans (map_id es)).symm
      cases hmember : mapping.member? "mappings" with
      | none =>
        rw [hmember, Option.getD_none] at hv
        obtain rfl : [] = es := Except.ok.inj ((congrArg elements hv).trans hes)
        cases he
      | some w =>
        rw [hmember, Option.getD_some] at hv
        have hnoList (rules : List Json) (hrules : v = .arr rules) : False :=
          hother rules (hmember.trans (congrArg some (hv.trans hrules)))
        exact evaluatedRule_element hnoList hes he

lemma rulesOf_evaluatedFramework (r : Reading) :
    rulesOf (evaluatedFramework r) = map evaluatedRule <$> rulesOf r := by
  match r with
  | .error _ => rfl
  | .ok none => rfl
  | .ok (some mapping) => exact rules_evaluatedMapping mapping

lemma enriched_evaluatedFramework (raw before report : Json) (frameworks : List Reading) :
    enriched raw before report (frameworks.map evaluatedFramework) =
      enriched raw before report frameworks := by
  have hframework (t : Topology) (s : Table Key Json × Nat) (r : Reading) :
      applyFramework t s (evaluatedFramework r) = applyFramework t s r := by
    simp only [applyFramework_eq, rulesOf_evaluatedFramework, bind_map_left, foldlM_map,
      applyRule_evaluatedRule]
  simp only [enriched, complete, foldlM_map, hframework]

/-! ## Roles that were given -/

lemma detectionOf_evaluatedRule (rule : Json) :
    detectionOf (evaluatedRule rule) = evaluatedPart (detectionOf rule) := by
  rw [detectionOf, evaluatedRule]
  split
  next detection hdetection =>
    rw [member?_setMember (isObject_of_member? hdetection), if_pos rfl, detectionOf, hdetection]
    rfl
  next hnone =>
    rw [detectionOf, hnone]
    rfl

lemma earns_evaluatedRule {n rule : Json} : Earns t n (evaluatedRule rule) ↔ Earns t n rule := by
  have hkind : (evaluatedRule rule).member? "core_node" = rule.member? "core_node" := by
    rw [evaluatedRule]
    split
    next detection hdetection =>
      rw [member?_setMember (isObject_of_member? hdetection), if_neg (by decide)]
    next => rfl
  rw [Earns, Earns, hkind, detectionOf_evaluatedRule, recognises_evaluatedPart]

lemma HasRole.appends {n m : Json} {added : List Json} (h : HasRole n r) (hm : Appends n m added) :
    HasRole m r := by
  obtain ⟨-, rfl⟩ | ⟨rs, hrs, hmrs⟩ := hm.roles
  · exact h
  · rw [hasRole_iff_mem hrs] at h
    exact (hasRole_iff_mem hmrs r).2 (mem_append_left _ h)

lemma hasRole_of_applyRuleTo {n m rule : Json}
    (hrole : rule.member? "semantic_role" = some (.str r))
    (hearns : Earns t n rule) (h : applyRuleTo t n rule = .ok m) : HasRole m r := by
  obtain ⟨role, hrole', hn, ⟨rfl, hheld⟩ | ⟨-, -, rs, -, rfl⟩⟩ := applyRuleTo_cases h
  · cases hrole.symm.trans hrole'
    exact hheld hearns
  · cases hrole.symm.trans hrole'
    exact (hasRole_iff_mem (rolesOf_setMember hn _) r).2 (by simp)

lemma hasRole_of_rules {n m rule : Json} {rules : List Json} (hmem : rule ∈ rules)
    (hrole : rule.member? "semantic_role" = some (.str r)) (hearns : Earns t n rule)
    (h : rules.foldlM (applyRuleTo t) n = .ok m) : HasRole m r := by
  obtain ⟨earlier, later, rfl⟩ := append_of_mem hmem
  rw [foldlM_append, bind_eq_ok] at h
  obtain ⟨n₁, hearlier, h⟩ := h
  rw [foldlM_cons, bind_eq_ok] at h
  obtain ⟨n₂, htried, hlater⟩ := h
  -- The rules before leave alone what the node earns, and those after it take no role away.
  obtain ⟨_, hn₁⟩ := Appends.of_rules hearlier
  obtain ⟨_, hm⟩ := Appends.of_rules hlater
  have hearns' : Earns t n₁ rule := (earns_congr hn₁.structures t rule).2 hearns
  exact (hasRole_of_applyRuleTo hrole hearns' htried).appends hm

lemma applyRuleTo_ne_iff {n m rule : Json} (hrole : rule.member? "semantic_role" = some (.str r))
    (h : applyRuleTo t n rule = .ok m) : m ≠ n ↔ Earns t n rule ∧ ¬HasRole n r := by
  obtain ⟨role, hrole', hn, ⟨rfl, hheld⟩ | ⟨hearns, hheld, rs, hrs, rfl⟩⟩ := applyRuleTo_cases h
  · cases hrole.symm.trans hrole'
    exact iff_of_false (fun hne ↦ hne rfl) fun ⟨hearns, hnot⟩ ↦ hnot (hheld hearns)
  · cases hrole.symm.trans hrole'
    refine iff_of_true (fun heq ↦ ?_) ⟨hearns, fun hhas ↦ ?_⟩
    · have hroles := congrArg rolesOf heq
      rw [rolesOf_setMember hn, hrs, arr.injEq] at hroles
      simp at hroles
    · rw [HasRole, hheld] at hhas
      cases hhas

lemma hasRole_of_full {raw before report g rule : Json} {frameworks : List Reading}
    {nodes : Table Key Json} (hraw : Tabled raw nodes) (hfull : isFull before report = true)
    (h : enriched raw before report frameworks = .ok g) (hrule : Active frameworks rule)
    (hrole : rule.member? "semantic_role" = some (.str r)) :
    ∃ t done, topologyOf { fresh := nodes } raw = .ok t ∧ Tabled g done ∧
      ∀ k n, nodes.get? k = some n → Earns t n rule → ∃ m, done.get? k = some m ∧ HasRole m r := by
  obtain ⟨t, done, ht, hdone, haligned⟩ := enriched_of_full hraw hfull h
  refine ⟨t, done, ht, hdone, fun k n hn hearns ↦ ?_⟩
  obtain ⟨m, hm, hgiven⟩ := haligned.present k n hn
  obtain ⟨lists, hlists, hrun⟩ := giveRoles_iff.1 hgiven
  exact ⟨m, hm, hasRole_of_rules ((active_iff hlists rule).1 hrule) hrole hearns hrun⟩

lemma recognises_of_unevaluated (t : Topology) {n : Json} (hn : n.IsObject)
    {members : Table String Json} (hkeys : ∀ name ∈ members.keys, name ∉ ruleNames) :
    recognises t (.obj members) n = .ok true := by
  have hnone : members.filter (fun e ↦ ruleNames.contains e.1) = [] := by
    refine filter_eq_nil_iff.2 fun e he hcontains ↦ ?_
    exact hkeys e.1 (mem_keys_of_mem he) (contains_iff_mem.1 hcontains)
  rw [← recognises_evaluatedPart, evaluatedPart, hnone, recognises, get_eq_ok.2 ⟨hn, rfl⟩]
  rfl

/-- What a key that is not evaluated asks for is of no account: no run changes if all such keys are
taken out of all rules, and a rule gives its role to just those nodes for which what remains of it
holds. In a full run every node of its kind gets the role of a rule that has only such keys. -/
theorem unevaluated_keys_ignored {frameworks : List Reading} {rule kind : Json} {r : String}
    (hrule : Active frameworks rule) (hrole : rule.member? "semantic_role" = some (.str r))
    (hkind : rule.member? "core_node" = some kind) :
    (∀ raw before report, enriched raw before report (frameworks.map evaluatedFramework) =
      enriched raw before report frameworks) ∧
    (∀ t n m, applyRuleTo t n rule = .ok m →
      (m ≠ n ↔ Earns t n (evaluatedRule rule) ∧ ¬HasRole n r)) ∧
    ∀ raw before report g nodes, Tabled raw nodes → isFull before report = true →
      enriched raw before report frameworks = .ok g →
      ∃ t done, topologyOf { fresh := nodes } raw = .ok t ∧ Tabled g done ∧
        (∀ k n, nodes.get? k = some n → Earns t n (evaluatedRule rule) →
          ∃ m, done.get? k = some m ∧ HasRole m r) ∧
        ∀ members, rule.member? "detection_rules" = some (.obj members) →
          (∀ name ∈ keys members, name ∉ Roles.ruleNames) →
          ∀ k n, nodes.get? k = some n → (kindOf n).same kind = true →
            ∃ m, done.get? k = some m ∧ HasRole m r := by
  refine ⟨fun raw before report ↦ enriched_evaluatedFramework raw before report frameworks,
    fun t n m htried ↦ ?_, fun raw before report g nodes hraw hfull h ↦ ?_⟩
  · rw [earns_evaluatedRule]
    exact applyRuleTo_ne_iff hrole htried
  · obtain ⟨t, done, ht, hdone, hroles⟩ := hasRole_of_full hraw hfull h hrule hrole
    refine ⟨t, done, ht, hdone, fun k n hn hearns ↦ hroles k n hn (earns_evaluatedRule.1 hearns),
      fun members hmembers hkeys k n hn hsame ↦ hroles k n hn ⟨kind, hkind, hsame, ?_⟩⟩
    obtain ⟨id, hid, -⟩ := hraw.identified k n (mem_of_get? hn)
    rw [detectionOf, hmembers]
    exact recognises_of_unevaluated t (Json.isObject_of_member? hid) hkeys

/-! ## A limit that becomes a router -/

/-- A file with a variable of which nothing is known but its name. -/
def limitNodes : Table Key Json :=
  [fileEntry "a.py" "1",
    (.str "a.py::limit", .obj [("id", .str "a.py::limit"), ("node_type", .str "Variable"),
      ("name", .str "limit")])]

def limitGraph : Json := graphOf limitNodes [edgeOf "defines" "a.py" "a.py::limit"]

/-- The rule for variables that are assigned a router. -/
def routerRule : Json :=
  .obj [("core_node", .str "Variable"), ("semantic_role", .str "Router"),
    ("notes", .str "APIRouter instances define modular route groups."),
    ("detection_rules", .obj [("assigned_value", .arr [.str "APIRouter"])])]

lemma tabled_limitGraph : Tabled limitGraph limitNodes :=
  Listed.tabled ⟨rfl, by decide, by decide⟩

lemma active_routerRule : Active [.ok (some Catalog.fastapiMapping)] routerRule :=
  ⟨_, mem_singleton_self _, _, rfl, by decide⟩

lemma exists_enriched_limitGraph : ∃ g,
    enriched limitGraph .null .null [.ok (some Catalog.fastapiMapping)] = .ok g := ⟨_, rfl⟩

theorem unevaluated_keys_ignored_routerRule :
    ∃ g done m, enriched limitGraph .null .null [.ok (some Catalog.fastapiMapping)] = .ok g ∧
      Tabled g done ∧ done.get? (.str "a.py::limit") = some m ∧ HasRole m "Router" := by
  obtain ⟨g, hg⟩ := exists_enriched_limitGraph
  obtain ⟨-, -, hfull⟩ := unevaluated_keys_ignored active_routerRule rfl rfl
  obtain ⟨t, done, -, hdone, -, hroles⟩ := hfull _ _ _ g _ tabled_limitGraph rfl hg
  obtain ⟨m, hm, hrole⟩ := hroles _ rfl (by decide) (.str "a.py::limit") _ rfl rfl
  exact ⟨g, done, m, hg, hdone, hm, hrole⟩

/-- The only rule that gives the role of a router has a key that is not evaluated, and yet a
variable gets it on account of this rule. -/
theorem routerRule_gives_role :
    (∀ rule, Active [.ok (some Catalog.fastapiMapping)] rule →
      rule.member? "semantic_role" = some (.str "Router") → rule = routerRule) ∧
    (∃ members, routerRule.member? "detection_rules" = some (.obj members) ∧
      "assigned_value" ∈ keys members ∧ "assigned_value" ∉ Roles.ruleNames) ∧
    ∃ g n m, enriched limitGraph .null .null [.ok (some Catalog.fastapiMapping)] = .ok g ∧
      Diff.requiredNodes limitGraph = .ok [(fileEntry "a.py" "1").2, n] ∧ ¬HasRole n "Router" ∧
      Diff.requiredNodes g = .ok [(fileEntry "a.py" "1").2, m] ∧ HasRole m "Router" := by
  refine ⟨fun rule hrule hrole ↦ ?_, ⟨_, rfl, by decide, by decide⟩, ?_⟩
  · obtain ⟨r, hr, rules, hrules, hmem⟩ := hrule
    obtain rfl := mem_singleton.1 hr
    have hall : ∀ rule ∈ rules, rule.member? "semantic_role" = some (.str "Router") →
        rule = routerRule := by
      obtain rfl := Except.ok.inj hrules
      decide
    exact hall rule hmem hrole
  · exact ⟨_, _, _, rfl, rfl, fun h ↦ Bool.false_ne_true (Except.ok.inj h), rfl, rfl⟩

end CodeAtlas.Graph.Enrichment
