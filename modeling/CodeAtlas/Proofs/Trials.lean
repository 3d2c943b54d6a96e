import CodeAtlas.Command.Trial
import CodeAtlas.Proofs.DetectionRules
import CodeAtlas.Proofs.Sessions

/-!
# Roles that a trial detects

The trial of an adapter looks for roles in a graph that has just been built, and frameworks give
roles to the same nodes later. The trial is the more lenient of the two: it judges by the loose
standard, frameworks by the strict one. Hence what a framework gives has been detected if decorators
have their names in their ids, and what was detected is given if no word fits merely in part.
-/

namespace CodeAtlas.Adapter

open Fallible CodeAtlas.Graph CodeAtlas.Graph.Enrichment List Json Detection Command Text

variable {n rule : Json} {wish : Wish}
variable {b : Built} {links : List Link} {rules : List Json} {things : List Thing}

/-! ## Tests -/

lemma decides_anyHolds {α : Type} {test : Json → Except Fault Bool} {f : α → Json} {P : α → Prop}
    {vs : List α} (h : ∀ v ∈ vs, Decides (test (f v)) (P v)) :
    Decides (anyHolds test (vs.map f)) (∃ v ∈ vs, P v) := by
  induction vs with
  | nil => exact ⟨false, rfl, by simp⟩
  | cons v rest ih =>
    obtain ⟨hv, hrest⟩ := forall_mem_cons.1 h
    refine (hv.ite_or (ih hrest)).congr ?_
    simp

lemma decides_hasParts (parts : List String) (text : String) :
    Decides (hasParts parts text) (parts.all (occursIn · text) = true) := by
  induction parts with
  | nil => exact ⟨true, rfl, by simp⟩
  | cons part rest ih =>
    refine ((Decides.of_bool (occursIn part text)).ite_and fun _ ↦ ih).congr ?_
    simp

lemma decides_standsIn (word text : String) :
    Decides (standsIn word text) (standsWithin word text = true) := by
  have hparts : Decides (if (Text.splitBy "." word).length > 1 then
      hasParts (splitBy "." word) text else return false)
      ((Text.splitBy "." word).length > 1 ∧ (Text.splitBy "." word).all (occursIn · text) =
        true) := by
    by_cases hdotted : (Text.splitBy "." word).length > 1
    · rw [if_pos hdotted]
      exact (decides_hasParts _ text).congr (and_iff_right hdotted).symm
    · rw [if_neg hdotted]
      exact ⟨false, rfl, iff_of_false Bool.false_ne_true fun h ↦ hdotted h.1⟩
  refine ((Decides.of_bool (occursIn word text)).ite_or hparts).congr ?_
  simp [standsWithin]

lemma decides_anyStandsIn (ws texts : List String) :
    Decides (anyStandsIn (listed ws) (texts.map .str))
      (∃ w ∈ ws, ∃ text ∈ texts, standsWithin w text = true) :=
  decides_anyHolds fun w _ ↦ decides_anyHolds fun text _ ↦ decides_standsIn w text

lemma decides_anyIsPart (ws texts : List String) : Decides (anyIsPart (listed ws) (texts.map .str))
      (∃ w ∈ ws, ∃ text ∈ texts, occursIn w text = true) :=
  decides_anyHolds fun w _ ↦ decides_anyHolds fun text _ ↦ Decides.of_bool (occursIn w text)

/-! ## Looking around in a graph that was built -/

/-- A graph as the trial holds it. -/
structure Holds (things : List Thing) (links : List Link) (b : Built) : Prop where
  distinct : (things.map Thing.id).Nodup
  joined : ∀ l ∈ links, ∀ a : Aspect, ∃ y ∈ things, y.id = a.far l
  byId : Tabulates things b.byId
  nodes : b.nodes = b.byId.values
  edges : List.Forall₂ Link.Describes links b.edges
  tickets : b.tickets = []

lemma Fragment.exists_built {doc : Json}
    (h : Fragment things links doc) : ∃ b, Built.ofDocument doc = .ok b ∧ Holds things links b := by
  obtain ⟨ns, hns, hthings⟩ := h.nodes
  obtain ⟨es, hes, hlinks⟩ := h.edges
  obtain ⟨t, ht, rfl⟩ := Tabulates.of_nodes hthings
  have htickets : doc.getD "ambiguities" (.arr []) = .ok (.arr []) := by
    refine getD_eq_ok.2 ⟨isObject_of_member? hns, ?_⟩
    rcases h.tickets with hnone | hnil
    · rw [hnone]
      rfl
    · rw [hnil]
      rfl
  have hbyId : Diff.nodesById t.values = .ok t :=
    nodesById_values (ht.nodup_keys h.distinct) ht.identified
  refine ⟨{ nodes := t.values, edges := es, tickets := [], byId := t }, ?_, h.distinct,
    fun l hl a ↦ h.exists_far a hl, ht, rfl, hlinks, rfl⟩
  rw [Built.ofDocument, getD_of_member? hns, getD_of_member? hes, htickets]
  show (Diff.nodesById t.values >>= fun byId ↦ _) = _
  rw [hbyId]
  rfl

section Looking

variable {x : Thing} {a : Aspect}

lemma exists_names (hb : Holds things links b) {ids : List String}
    (hids : ∀ id ∈ ids, ∃ y ∈ things, y.id = id) :
    ∃ texts : List String, b.names (ids.map .str) = .ok (texts.map .str) ∧
      ∀ text, text ∈ texts ↔ ∃ y ∈ things, y.id ∈ ids ∧ y.name = text := by
  induction ids with
  | nil => exact ⟨[], rfl, by simp⟩
  | cons id rest ih =>
    obtain ⟨⟨y, hy, rfl⟩, hrest⟩ := forall_mem_cons.1 hids
    obtain ⟨texts, hnames, htexts⟩ := ih hrest
    obtain ⟨n, hn, hdescribes⟩ := hb.byId.get? hb.distinct hy
    refine ⟨y.name :: texts, ?_, fun text ↦ ?_⟩
    · rw [Built.names] at hnames ⊢
      rw [map_cons, mapM_cons, hnames, key_str]
      simp only [hn, bind, Except.bind, need_eq_ok.2 hdescribes.name]
      rfl
    · rw [mem_cons, htexts]
      constructor
      · rintro (rfl | ⟨z, hz, hid, rfl⟩)
        · exact ⟨y, hy, mem_cons_self, rfl⟩
        · exact ⟨z, hz, mem_cons_of_mem _ hid, rfl⟩
      · rintro ⟨z, hz, hid, rfl⟩
        rcases mem_cons.1 hid with heq | hid
        · obtain rfl := inj_on_of_nodup_map hb.distinct hz hy heq
          exact .inl rfl
        · exact .inr ⟨z, hz, hid, rfl⟩

/-- The member of an edge that tells the end at which a node stands, and that of the other end. -/
def Aspect.nearMember : Aspect → String
  | .decorators => "to"
  | _ => "from"

def Aspect.farMember : Aspect → String
  | .decorators => "from"
  | _ => "to"

lemma farEnd_of_describes {l : Link} {e : Json} (he : l.Describes e) (a : Aspect) (id : String) :
    (do
      if (← e.need a.nearMember).same id then
        let kind ← e.need "edge"
        if a.edges.any fun k ↦ kind.same k then return some (← e.need a.farMember)
        else return none
      else return none : Except Fault (Option Json)) =
      .ok (if loose.counts a l = true ∧ a.near l = id then some (.str (a.far l)) else none) := by
  have hends : e.need a.nearMember = .ok (.str (a.near l)) ∧ e.need a.farMember =
      .ok (.str (a.far l)) := by
    rw [need_eq_ok, need_eq_ok]
    cases a with
    | decorators => exact ⟨he.target, he.source⟩
    | _ => exact ⟨he.source, he.target⟩
  have hcounts : (a.edges.any fun k ↦ (Json.str l.kind).same k) = true ↔
      loose.counts a l = true := by
    simp [loose, same_str]
  simp only [hends.1, hends.2, need_eq_ok.2 he.kind, bind, Except.bind, same_str,
    Json.str.injEq, hcounts]
  by_cases hnear : a.near l = id
  · by_cases hcounts : loose.counts a l = true
    · simp only [if_pos hnear, if_pos hcounts, if_pos (And.intro hcounts hnear)]
      rfl
    · simp only [if_pos hnear, if_neg hcounts, if_neg fun h : _ ∧ _ ↦ hcounts h.1]
      rfl
  · simp only [if_neg hnear, if_neg fun h : _ ∧ _ ↦ hnear h.2]
    rfl

lemma exists_farEnds (hedges : List.Forall₂ Link.Describes links b.edges) (a : Aspect)
    (id : String) : ∃ ids : List String, b.farEnds a.nearMember a.farMember a.edges id =
    .ok (ids.map .str) ∧
      ∀ far, far ∈ ids ↔ ∃ l ∈ links, loose.counts a l = true ∧ a.near l = id ∧ a.far l = far := by
  -- The induction is on the edges alone, and the rest of the graph stays fixed.
  obtain ⟨ns, es, tickets, byId⟩ := b
  change List.Forall₂ Link.Describes links es at hedges
  induction hedges with
  | nil => exact ⟨[], rfl, by simp⟩
  | @cons l e links es hhead _ ih =>
    obtain ⟨ids, hrun, hids⟩ := ih
    rw [Built.farEnds] at hrun ⊢
    rw [filterMapM_cons, farEnd_of_describes hhead, hrun]
    by_cases hl : loose.counts a l = true ∧ a.near l = id
    · refine ⟨a.far l :: ids, by rw [if_pos hl]; rfl, fun far ↦ ?_⟩
      rw [mem_cons, hids, exists_mem_cons_iff]
      exact or_congr_left ⟨fun h ↦ ⟨hl.1, hl.2, h.symm⟩, fun h ↦ h.2.2.symm⟩
    · refine ⟨ids, by rw [if_neg hl]; rfl, fun far ↦ ?_⟩
      rw [hids, exists_mem_cons_iff, or_iff_right fun h ↦ hl ⟨h.1, h.2.1⟩]

lemma exists_texts (hb : Holds things links b) (ha : a ≠ .name) (x : Thing) :
    ∃ ids texts : List String,
      b.farEnds a.nearMember a.farMember a.edges x.id = .ok (ids.map .str) ∧
      (if a = .decorators then .ok (ids.map .str) else b.names (ids.map .str)) =
      .ok (texts.map .str) ∧ ∀ text, text ∈ texts ↔ text ∈ loose.compared things links x a := by
  obtain ⟨ids, hends, hids⟩ := exists_farEnds hb.edges a x.id
  have hthings : ∀ id ∈ ids, ∃ y ∈ things, y.id = id := by
    intro id hid
    obtain ⟨l, hl, -, -, rfl⟩ := (hids id).1 hid
    exact hb.joined l hl a
  simp only [Standard.mem_compared ha]
  by_cases hdecorators : a = .decorators
  · subst hdecorators
    refine ⟨ids, ids, hends, if_pos rfl, fun text ↦ ?_⟩
    rw [hids]
    constructor
    · rintro ⟨l, hl, hcounts, hnear, rfl⟩
      obtain ⟨y, hy, hfar⟩ := hb.joined l hl .decorators
      exact ⟨l, hl, hcounts, hnear, y, hy, hfar, hfar⟩
    · rintro ⟨l, hl, hcounts, hnear, y, -, hfar, rfl⟩
      exact ⟨l, hl, hcounts, hnear, hfar.symm⟩
  · obtain ⟨texts, hnames, htexts⟩ := exists_names hb hthings
    have hshown (y : Thing) : loose.shown a y = y.name := by
      cases a with
      | decorators => exact absurd rfl hdecorators
      | _ => rfl
    refine ⟨ids, texts, hends, by rw [if_neg hdecorators, hnames], fun text ↦ ?_⟩
    simp only [htexts, hids, hshown]
    constructor
    · rintro ⟨y, hy, ⟨l, hl, hcounts, hnear, hfar⟩, rfl⟩
      exact ⟨l, hl, hcounts, hnear, y, hy, hfar.symm, rfl⟩
    · rintro ⟨l, hl, hcounts, hnear, y, hy, hfar, rfl⟩
      exact ⟨y, hy, ⟨l, hl, hcounts, hnear, hfar.symm⟩, rfl⟩

lemma decides_ruleHolds_loose (hb : Holds things links b) (hn : x.Describes n) {detection : Json}
    {ws : List String} (hws : detection.member? a.key = some (listed ws)) :
    Decides (ruleHolds b detection n a.key) (loose.Meets things links x a ws) := by
  -- Without tickets there is nothing to compare the words with but what the edges lead to.
  have hexpressions (kind : String) : b.expressions kind x.id = .ok [] := by
    rw [Built.expressions, hb.tickets]
    rfl
  have hmeets {texts : List String} {test : Json → List Json → Except Fault Bool}
      (htexts : ∀ text, text ∈ texts ↔ text ∈ loose.compared things links x a)
      (htest : Decides (test (listed ws) (texts.map .str))
        (∃ w ∈ ws, ∃ text ∈ texts, loose.fits a w text = true)) :
      Decides (test (listed ws) (texts.map .str ++ [])) (loose.Meets things links x a ws) := by
    rw [append_nil]
    refine htest.congr ?_
    simp only [htexts]
    rfl
  refine .bind_ok (get_of_member? hn.id) (.bind_ok (need_eq_ok.2 hws) ?_)
  cases a with
  | name =>
    refine .bind_ok (get_of_member? hn.name) ((decides_holds ws x.name).congr ?_)
    exact (meets_name_iff (.inr rfl)).symm
  | bases =>
    obtain ⟨ids, texts, hends, hnames, htexts⟩ := exists_texts hb (a := .bases) (by decide) x
    exact .bind_ok hends (.bind_ok hnames (.bind_ok (hexpressions _)
      (hmeets htexts (decides_anyStandsIn ws texts))))
  | decorators =>
    obtain ⟨ids, texts, hends, hnames, htexts⟩ := exists_texts hb (a := .decorators) (by decide) x
    exact .bind_ok (hends.trans hnames) (.bind_ok (hexpressions _)
      (hmeets htexts (decides_anyStandsIn ws texts)))
  | callees =>
    obtain ⟨ids, texts, hends, hnames, htexts⟩ := exists_texts hb (a := .callees) (by decide) x
    exact .bind_ok hends (.bind_ok hnames (.bind_ok (hexpressions _)
      (hmeets htexts (decides_anyIsPart ws texts))))

lemma detection_allHold_eq (b : Built) (detection n : Json) (names : List String) :
    allHold b detection n names =
      tryAll (fun name ↦ detection.holds name) (ruleHolds b detection n) names := by
  induction names with
  | nil => rfl
  | cons name rest ih => rw [allHold, tryAll, ih]

lemma decides_detects (hb : Holds things links b) (hn : x.Describes n)
    (hrule : wish.Describes rule) :
    Decides (detects b wish.kind (detectionOf rule) n) (loose.Grants things links x wish) := by
  obtain ⟨members, hdetection, hwords, hkeys⟩ := hrule.words
  have hnames (a : Aspect) : a.key ∈ ruleNames := by cases a <;> decide
  have hall : Decides (allHold b (detectionOf rule) n ruleNames)
      (∀ a ws, wish.words a = some ws → loose.Meets things links x a ws) := by
    rw [hdetection, detection_allHold_eq]
    refine (decides_tryAll hwords hkeys (fun a ws hws ↦ ?_) ruleNames).congr
      ⟨fun h a ↦ h a (hnames a), fun h a _ ↦ h a⟩
    refine decides_ruleHolds_loose hb hn ?_
    rw [member?_obj, hwords, hws]
    rfl
  refine .bind_ok (get_of_member? hn.kind) ?_
  by_cases hsame : x.kind = wish.kind
  · rw [if_pos (same_str.2 (congrArg Json.str hsame))]
    exact hall.congr (and_iff_right hsame).symm
  · rw [if_neg fun h ↦ hsame (Json.str.inj (same_str.1 h))]
    exact ⟨false, rfl, iff_of_false Bool.false_ne_true fun h ↦ hsame h.1⟩

end Looking

/-! ## What the trial finds -/

def namesUnder (found : Command.Found) (r : String) : List Json :=
  (Table.get? found (.str r)).getD []

lemma mem_namesUnder_push {found : Found} {r r' : String} {v w : Json} :
    w ∈ namesUnder (Table.push found (.str r) v) r' ↔ w ∈ namesUnder found r' ∨ r = r' ∧ w = v := by
  rw [namesUnder, Table.get?_push]
  by_cases hr : r = r'
  · subst hr
    rw [if_pos rfl, Option.getD_some, mem_append, mem_singleton, and_iff_right rfl]
    rfl
  · rw [if_neg fun h ↦ hr (Key.str.inj h).symm, or_iff_left fun h ↦ hr h.1]
    rfl

/-- The trial of some rules detects a role in a node. -/
def Detected (b : Built) (rules : List Json) (n : Json) (r : String) : Prop :=
  ∃ rule ∈ rules, rule.member? "semantic_role" = some (.str r) ∧
    ∃ kind, rule.member? "core_node" = some kind ∧
      Detection.detects b kind (detectionOf rule) n = .ok true

lemma detected_cons {r : String} (hrule : wish.Describes rule) : Detected b (rule :: rules) n r ↔
      (wish.role = r ∧ detects b wish.kind (detectionOf rule) n = .ok true) ∨
      Detected b rules n r := by
  simp only [Detected, exists_mem_cons_iff, hrule.role, hrule.kind, Option.some.injEq,
    exists_eq_left', Json.str.injEq]

lemma exists_detectRole {kind detection : Json} (r : String) {ns : List Json}
    (h : ∀ n ∈ ns, (∃ hit, detects b kind detection n = .ok hit) ∧
      ∃ v, n.member? "name" = some v) (found : Found) (s : Session) :
    ∃ found', Gives (detectRole b r kind detection found ns) s found' ∧
      ∀ r' v, v ∈ namesUnder found' r' ↔ v ∈ namesUnder found r' ∨ r = r' ∧
        ∃ n ∈ ns, detects b kind detection n = .ok true ∧ n.member? "name" = some v := by
  induction ns generalizing found s with
  | nil => exact ⟨found, ⟨s, rfl⟩, by simp⟩
  | cons n rest ih =>
    obtain ⟨⟨⟨hit, hhit⟩, v, hv⟩, hrest⟩ := forall_mem_cons.1 h
    cases hit with
    | false =>
      obtain ⟨found', ⟨s', hrun⟩, hfound⟩ := ih hrest found s
      refine ⟨found', ⟨s', ?_⟩, fun r' w ↦ ?_⟩
      · rw [detectRole, hhit]
        exact hrun
      · rw [hfound]
        simp [hhit]
    | true =>
      have hstep : ∃ t, detectRole b r kind detection found (n :: rest) s =
          detectRole b r kind detection (Table.push found (.str r) v) rest t := by
        rw [detectRole, hhit, get_of_member? hv]
        exact ⟨_, rfl⟩
      obtain ⟨t, hstep⟩ := hstep
      obtain ⟨found', ⟨s', hrun⟩, hfound⟩ := ih hrest (Table.push found (.str r) v) t
      refine ⟨found', ⟨s', hstep.trans hrun⟩, fun r' w ↦ ?_⟩
      rw [hfound, mem_namesUnder_push, or_assoc, ← and_or_left, exists_mem_cons_iff,
        and_iff_right hhit, hv, Option.some.injEq, @eq_comm _ v w]

lemma exists_detectRoles {wishes : List Wish} (hrules : List.Forall₂ Wish.Describes wishes rules)
    (hnodes : ∀ n ∈ b.nodes, (∀ wish rule, Wish.Describes wish rule →
      ∃ hit, detects b wish.kind (detectionOf rule) n = .ok hit) ∧
      ∃ v, n.member? "name" = some v) (found : Found) (s : Session) :
    ∃ found', Gives (detectRoles b found rules) s found' ∧
      ∀ r v, v ∈ namesUnder found' r ↔ v ∈ namesUnder found r ∨
        ∃ n ∈ b.nodes, n.member? "name" = some v ∧ Detected b rules n r := by
  induction hrules generalizing found s with
  | nil => exact ⟨found, ⟨s, rfl⟩, by simp [Detected]⟩
  | @cons wish rule wishes rules hrule _ ih =>
    have hdetection : rule.getD "detection_rules" (.obj []) = .ok (detectionOf rule) :=
      getD_eq_ok.2 ⟨isObject_of_member? hrule.role, rfl⟩
    obtain ⟨middle, ⟨t, hmiddle⟩, hfirst⟩ := exists_detectRole wish.role
      (fun n hn ↦ ⟨(hnodes n hn).1 wish rule hrule, (hnodes n hn).2⟩) found s
    obtain ⟨found', ⟨s', hrun⟩, hrest⟩ := ih middle t
    refine ⟨found', ⟨s', ?_⟩, fun r v ↦ ?_⟩
    · rw [detectRoles, need_eq_ok.2 hrule.role, need_eq_ok.2 hrule.kind, hdetection]
      exact (bind_of_ok hmiddle).trans hrun
    · rw [hrest, hfirst, or_assoc]
      simp only [detected_cons hrule]
      refine or_congr_right ⟨?_, ?_⟩
      · rintro (⟨hr, n, hn, hhit, hname⟩ | ⟨n, hn, hname, hdetected⟩)
        · exact ⟨n, hn, hname, .inl ⟨hr, hhit⟩⟩
        · exact ⟨n, hn, hname, .inr hdetected⟩
      · rintro ⟨n, hn, hname, ⟨hr, hhit⟩ | hdetected⟩
        · exact .inl ⟨hr, n, hn, hhit, hname⟩
        · exact .inr ⟨n, hn, hname, hdetected⟩

/-! ## Trial and framework -/

section Compared

variable {doc mapping : Json} {wishes : List Wish}

lemma detected_iff (hb : Holds things links b)
    (hrules : List.Forall₂ Wish.Describes wishes rules) {x : Thing} (hn : x.Describes n)
    (r : String) : Detected b rules n r ↔ loose.Shows things links wishes x r := by
  induction hrules with
  | nil => simp [Detected, Standard.Shows]
  | cons hrule _ ih =>
    rw [detected_cons hrule, ih, (decides_detects hb hn hrule).eq_ok_true_iff, Standard.Shows,
      Standard.Shows, exists_mem_cons_iff]

/-- The trial of a mapping and a full run by it both come to an end. Under a role, the trial lists
the names of the nodes in which it detects it; it does so by the loose standard, and the run gives
roles by the strict one. So every role that is given was detected, if decorators have their names in
their ids; and every role that was detected is given, if no word fits merely in part. -/
theorem trial_compared (hdoc : Fragment things links doc) (hmapping : Wishes wishes mapping rules)
    {before report : Json} (hfull : isFull before report = true) :
    ∃ b g done, Built.ofDocument doc = .ok b ∧
      enriched doc before report [.ok (some mapping)] = .ok g ∧ Tabled g done ∧
      done.keys = things.map (.str ·.id) ∧
      (∀ s, ∃ found, Command.Gives (Command.detectRoles b [] rules) s found ∧
        ∀ r v, v ∈ namesUnder found r ↔
          ∃ n ∈ b.nodes, n.member? "name" = some v ∧ Detected b rules n r) ∧
      ∀ x ∈ things, ∃ n ∈ b.nodes, ∃ m, x.Describes n ∧ done.get? (.str x.id) = some m ∧
        ∀ r, (Detected b rules n r ↔ loose.Shows things links wishes x r) ∧
          (HasRole m r ↔ strict.Shows things links wishes x r) ∧
          (DecoratorsNamed things links → HasRole m r → Detected b rules n r) ∧
          ((∀ wish ∈ wishes, ∀ a ws, wish.words a = some ws → a ≠ .name → Sharp things links a ws) →
            Detected b rules n r → HasRole m r) := by
  obtain ⟨b, hbuilt, hb⟩ := hdoc.exists_built
  obtain ⟨g, done, hg, hdone, hkeys, hroles⟩ := exists_enriched hdoc hmapping hfull
  refine ⟨b, g, done, hbuilt, hg, hdone, hkeys, fun s ↦ ?_, fun x hx ↦ ?_⟩
  · have hready : ∀ n ∈ b.nodes, (∀ wish rule, Wish.Describes wish rule →
        ∃ hit, Detection.detects b (.str wish.kind) (detectionOf rule) n = .ok hit) ∧
        ∃ v, n.member? "name" = some v := by
      intro n hn
      rw [hb.nodes, Table.values, List.mem_map] at hn
      obtain ⟨e, he, rfl⟩ := hn
      obtain ⟨x, -, -, hx⟩ := exists_left_of_mem hb.byId he
      refine ⟨fun wish rule hrule ↦ ?_, _, hx.name⟩
      obtain ⟨hit, hhit, -⟩ := decides_detects hb hx hrule
      exact ⟨hit, hhit⟩
    obtain ⟨found, hgives, hfound⟩ := exists_detectRoles hmapping.2 hready [] s
    exact ⟨found, hgives, fun r v ↦ (hfound r v).trans (or_iff_right List.not_mem_nil)⟩
  · obtain ⟨e, he, -, hn⟩ := exists_right_of_mem hb.byId hx
    obtain ⟨m, hm, hgiven⟩ := hroles x hx
    refine ⟨e.2, hb.nodes ▸ List.mem_map_of_mem he, m, hn, hm, fun r ↦ ?_⟩
    have hdetected := detected_iff hb hmapping.2 hn r
    refine ⟨hdetected, hgiven r, fun hids h ↦ ?_, fun hsharp h ↦ ?_⟩
    · exact hdetected.2 (((hgiven r).1 h).imp fun _ _ _ _ _ ↦ loose_of_strict hids)
    · refine (hgiven r).2 ((hdetected.1 h).imp fun wish hwish a ws hws ↦ ?_)
      exact strict_of_loose (hsharp wish hwish a ws hws)

end Compared

/-! ## A shop and its base -/

def Thing.written (x : Thing) : Json :=
  .obj [("node_type", .str x.kind), ("name", .str x.name), ("id", .str x.id)]

def Link.written (l : Link) : Json :=
  .obj [("edge", .str l.kind), ("from", .str l.source), ("to", .str l.target)]

def written (things : List Thing) (links : List Link) : Json :=
  .obj [("nodes", .arr (things.map Thing.written)), ("edges", .arr (links.map Link.written)),
    ("ambiguities", .arr [])]

lemma fragment_written (hdistinct : (things.map Thing.id).Nodup)
    (hjoined : ∀ l ∈ links, l.source ∈ things.map Thing.id ∧ l.target ∈ things.map Thing.id) :
    Fragment things links (written things links) where
  nodes := ⟨_, rfl, forall₂_map_right_iff.2 (forall₂_same.2 fun _ _ ↦ ⟨rfl, rfl, rfl, rfl⟩)⟩
  edges := ⟨_, rfl,
    forall₂_map_right_iff.2 (forall₂_same.2 fun _ _ ↦ ⟨rfl, rfl, rfl, forall_mem_cons.2
      ⟨rfl, forall_mem_cons.2 ⟨rfl, forall_mem_singleton.2 rfl⟩⟩⟩)⟩
  tickets := .inr rfl
  distinct := hdistinct
  joined := hjoined

def shop : Thing := ⟨"a.py::Shop", "Class", "Shop"⟩

/-- A class of the given name, and a shop that extends it. -/
def shopThings (base : String) : List Thing :=
  [⟨"a.py", "File", "a.py"⟩, ⟨"a.py::" ++ base, "Class", base⟩, shop]

def shopLinks (base : String) : List Link :=
  [⟨"defines", "a.py", "a.py::" ++ base⟩, ⟨"defines", "a.py", "a.py::Shop"⟩,
    ⟨"extends", "a.py::Shop", "a.py::" ++ base⟩]

/-- Wants the base of a class to be a model. -/
def entityWish : Wish where
  role := "entity"
  kind := "Class"
  words
    | .bases => some ["Model"]
    | _ => none

def entityMapping : Json := .obj [("mappings", .arr [entityRule])]

lemma wishes_entityMapping : Wishes [entityWish] entityMapping [entityRule] := by
  refine ⟨rfl, .cons ⟨rfl, rfl, _, rfl, fun a ↦ ?_, fun name hname ↦ ⟨.bases, ?_⟩⟩ .nil⟩
  · cases a with
    | _ => rfl
  · exact mem_singleton.1 hname

lemma shows_entity {std : Standard} {base : String}
    (hbase : base ∈ std.compared (shopThings base) (shopLinks base) shop .bases)
    (hfits : std.fits .bases "Model" base = true) :
    std.Shows (shopThings base) (shopLinks base) [entityWish] shop "entity" := by
  refine ⟨entityWish, mem_singleton_self _, rfl, rfl, fun a ws hws ↦ ?_⟩
  cases a with
  | bases =>
    cases hws
    exact ⟨"Model", mem_singleton_self _, base, hbase, hfits⟩
  | _ => cases hws

theorem trial_compared_shop :
    ∃ b g done n m, Built.ofDocument (written (shopThings "Model") (shopLinks "Model")) = .ok b ∧
      enriched (written (shopThings "Model") (shopLinks "Model")) .null .null
        [.ok (some entityMapping)] = .ok g ∧
      Tabled g done ∧ n ∈ b.nodes ∧ done.get? (.str shop.id) = some m ∧
      Detected b [entityRule] n "entity" ∧ HasRole m "entity" := by
  have hdoc : Fragment (shopThings "Model") (shopLinks "Model") _ :=
    fragment_written (by decide) (by decide)
  have hids : DecoratorsNamed (shopThings "Model") (shopLinks "Model") := by
    unfold DecoratorsNamed
    decide
  obtain ⟨b, g, done, hb, hg, hdone, -, -, hall⟩ :=
    trial_compared hdoc wishes_entityMapping (show isFull .null .null = true from rfl)
  obtain ⟨n, hn, m, -, hm, hroles⟩ := hall shop (by decide)
  obtain ⟨-, hgiven, hdetected, -⟩ := hroles "entity"
  have hrole := hgiven.2 (shows_entity (by decide) (by decide))
  exact ⟨b, g, done, n, m, hb, hg, hdone, hn, hm, hdetected hids hrole, hrole⟩

/-- A base that is merely called after the word: the trial detects the role, and no run gives it. -/
theorem trial_detects_more :
    Fragment (shopThings "BaseModel") (shopLinks "BaseModel")
      (written (shopThings "BaseModel") (shopLinks "BaseModel")) ∧
    Wishes [entityWish] entityMapping [entityRule] ∧
    ∃ b g done n m,
      Built.ofDocument (written (shopThings "BaseModel") (shopLinks "BaseModel")) = .ok b ∧
      enriched (written (shopThings "BaseModel") (shopLinks "BaseModel")) .null .null
        [.ok (some entityMapping)] = .ok g ∧
      Tabled g done ∧ n ∈ b.nodes ∧ shop.Describes n ∧ done.get? (.str shop.id) = some m ∧
      Detected b [entityRule] n "entity" ∧ ¬HasRole m "entity" := by
  have hdoc : Fragment (shopThings "BaseModel") (shopLinks "BaseModel") _ :=
    fragment_written (by decide) (by decide)
  have hshop : shop ∈ shopThings "BaseModel" := by decide
  obtain ⟨b, hbuilt, hb⟩ := hdoc.exists_built
  obtain ⟨g, done, hg, hdone, -, hroles⟩ :=
    exists_enriched hdoc wishes_entityMapping (show isFull .null .null = true from rfl)
  obtain ⟨e, he, -, hn⟩ := exists_right_of_mem hb.byId hshop
  obtain ⟨m, hm, hgiven⟩ := hroles shop hshop
  refine ⟨hdoc, wishes_entityMapping, b, g, done, e.2, m, hbuilt, hg, hdone,
    hb.nodes ▸ List.mem_map_of_mem he, hn, hm, ?_, fun hrole ↦ ?_⟩
  · exact (detected_iff hb wishes_entityMapping.2 hn "entity").2
      (shows_entity (by decide) (by decide))
  · obtain ⟨wish, hwish, -, -, hmeets⟩ := (hgiven "entity").1 hrole
    obtain rfl := List.mem_singleton.1 hwish
    obtain ⟨w, hw, text, htext, hfits⟩ := hmeets .bases ["Model"] rfl
    obtain rfl := List.mem_singleton.1 hw
    have hnone :
      ∀ text ∈ strict.compared (shopThings "BaseModel") (shopLinks "BaseModel") shop .bases,
      strict.fits .bases "Model" text = false := by decide
    rw [hnone text htext] at hfits
    cases hfits

end CodeAtlas.Adapter
