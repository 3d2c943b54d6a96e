import CodeAtlas.Command.Enrich
import CodeAtlas.Proofs.Sessions

/-!
# The gate in front of giving roles

Before roles are given, every adapter of the project is checked by a program of its own, and a check
that does not hold is to stop the run. The program reports what it has found, but it ends well
whatever that is. So the gate stops a run only if the program is not there or cannot be run to its
end; no violation of the rules ever does.
-/

namespace CodeAtlas.Command

open OnlyTells List

variable {l : Layout} {s t : Session} {frameworks : Json} {framework : String} {installed : Bool}

/-! ## Checking an adapter -/

lemma onlyTells_checkRuleFile (core adapter : Path) (file : String) :
    OnlyTells (checkRuleFile core adapter file) := by
  refine .bind (.isPresent core) fun hasCore ↦ ?_
  split
  · exact .pure _
  · refine .bind (.isPresent adapter) fun hasAdapter ↦ ?_
    split
    · exact .pure _
    · refine .bind (.attempt (.bind (.readJson core) fun c ↦ .bind (.readJson adapter) fun a ↦
        .pure _)) fun documents ↦ ?_
      split
      · exact .pure _
      · split
        · exact .pure _
        · split <;> exact .pure _

lemma onlyTells_checkPart (path : Path) (file : String) {check : Command (List Json)}
    (h : OnlyTells check) : OnlyTells (checkPart path file check) := by
  refine .bind (.isPresent path) fun present ↦ ?_
  split
  · refine .bind (.attempt h) fun found ↦ ?_
    split <;> exact .pure _
  · exact .pure _

lemma onlyTells_adapterViolations (g : GovernedBy) (framework : String) :
    OnlyTells (adapterViolations g framework) := by
  refine .bind (.mapM fun file _ ↦ onlyTells_checkRuleFile _ _ file) fun _ ↦
    .bind (onlyTells_checkPart _ _ ?_) fun _ ↦ .bind (onlyTells_checkPart _ _ ?_) fun _ ↦ .pure _
  · exact .bind (.readJson _) fun _ ↦ .bind (.readJson _) fun _ ↦ .lift _
  · exact .bind (.readJson _) fun _ ↦ .lift _

lemma onlyTells_checkAdapter (g : GovernedBy) (framework : String) :
    OnlyTells (checkAdapter g framework none) :=
  .bind (onlyTells_adapterViolations g framework) fun _ ↦ .say _

lemma gives_checkAdapter_iff {g : GovernedBy} : Gives (checkAdapter g framework none) s () ↔
      ∃ violations, Gives (adapterViolations g framework) s violations := by
  refine (gives_bind (onlyTells_adapterViolations g framework) fun _ ↦ .say _).trans ?_
  exact exists_congr fun _ ↦ and_iff_left ⟨_, rfl⟩

/-! ## The gate -/

/-- The program that checks adapters is there and gives a report on the adapter of a framework,
whatever the report says. -/
def Reported (l : Layout) (s : Session) (framework : String) : Prop :=
  Gives (isFile (adapterChecker l)) s true ∧
    ∃ violations, Gives (adapterViolations (GovernedBy.installed l.tool) framework) s violations

lemma onlyTells_adapterHolds (l : Layout) (framework : Json) :
    OnlyTells (adapterHolds l framework) := by
  refine .bind (.lift _) fun name ↦ .bind (.start _ _ (onlyTells_checkAdapter _ _)) fun ended ↦ ?_
  split <;> exact .bind (.say _) fun _ ↦ .pure _

lemma programWord_eq_ok {v : Json} {name : String} : programWord v = .ok name ↔ v = .str name := by
  cases v <;> simp [programWord]

/-- The check of one framework: it must be a text, and just a report lets it pass. -/
lemma gives_adapterHolds_iff {framework : Json} {holds : Bool} :
    Gives (adapterHolds l framework) s holds ↔ ∃ name, framework = .str name ∧
      (∃ installed, Gives (isFile (adapterChecker l)) s installed) ∧
      (holds = true ↔ Reported l s name) := by
  have hstarted {name : String} {installed : Bool}
    (h : Gives (isFile (adapterChecker l)) s installed) :
      ∃ b, Gives (adapterHolds l name) s b ∧ (b = true ↔ Reported l s name) := by
    obtain ⟨ended, ⟨u, hu⟩, hcode⟩ :=
      (onlyTells_checkAdapter (GovernedBy.installed l.tool) name).exists_start l h
    refine ⟨decide (ended.code = 0), ?_, ?_⟩
    · have hword : (liftM (programWord name) : Command String) s = .ok name s := rfl
      rw [Gives, adapterHolds, bind_of_ok hword, bind_of_ok hu]
      split
      next hzero => exact ⟨_, by rw [decide_eq_true hzero]; rfl⟩
      next hzero => exact ⟨_, by rw [decide_eq_false hzero]; rfl⟩
    · rw [decide_eq_true_iff, hcode, gives_checkAdapter_iff, Reported]
      exact and_congr_left fun _ ↦ ⟨fun htrue ↦ htrue ▸ h, h.unique⟩
  constructor
  · rintro ⟨t, ht⟩
    obtain ⟨name, hname, hrun⟩ := lift_bind_eq_ok.1 ht
    obtain ⟨ended, u, hu, -⟩ := run_bind_eq_ok.1 hrun
    obtain ⟨installed, v, hv, -⟩ := run_bind_eq_ok.1 hu
    obtain rfl := programWord_eq_ok.1 hname
    obtain ⟨b, hb, hreported⟩ := hstarted ⟨v, hv⟩
    obtain rfl := hb.unique ⟨t, ht⟩
    exact ⟨name, rfl, ⟨_, v, hv⟩, hreported⟩
  · rintro ⟨name, rfl, ⟨installed, h⟩, hholds⟩
    obtain ⟨b, hb, hreported⟩ := hstarted h
    rwa [Bool.eq_iff_iff.2 (hholds.trans hreported.symm)]

open Classical in
/-- The checks of all frameworks: they must be texts, and just a report lets one pass. -/
lemma gives_mapM_adapterHolds_iff {items : List Json} {verdicts : List Bool} :
    Gives (items.mapM (adapterHolds l)) s verdicts ↔ ∃ names : List String, items = names.map .str ∧
      (names ≠ [] → ∃ installed, Gives (isFile (adapterChecker l)) s installed) ∧
      verdicts = names.map fun name ↦ decide (Reported l s name) := by
  have htells (xs : List Json) : OnlyTells (xs.mapM (adapterHolds l)) :=
    .mapM fun fw _ ↦ onlyTells_adapterHolds l fw
  induction items generalizing verdicts with
  | nil => simp [gives_pure, eq_comm]
  | cons x xs ih =>
    rw [mapM_cons, gives_bind (onlyTells_adapterHolds l x) fun _ ↦
      .bind (htells xs) fun _ ↦ .pure _]
    simp only [gives_bind (htells xs) fun _ ↦ .pure _, gives_pure, ih, gives_adapterHolds_iff]
    constructor
    · rintro ⟨b, ⟨name, rfl, hinstalled, hb⟩, _, ⟨names, rfl, -, rfl⟩, rfl⟩
      refine ⟨name :: names, rfl, fun _ ↦ hinstalled, ?_⟩
      rw [map_cons, Bool.eq_iff_iff.2 (hb.trans decide_eq_true_iff.symm)]
    · rintro ⟨_ | ⟨name, names⟩, hnames, hinstalled, rfl⟩
      · cases hnames
      · cases hnames
        replace hinstalled := hinstalled (cons_ne_nil _ _)
        exact ⟨_, ⟨name, rfl, hinstalled, decide_eq_true_iff⟩, _,
          ⟨names, rfl, fun _ ↦ hinstalled, rfl⟩, rfl⟩

lemma onlyTells_governanceHolds (l : Layout) (frameworks : Json) :
    OnlyTells (governanceHolds l frameworks) :=
  .bind (.say _) fun _ ↦ .bind (.lift _) fun _ ↦
    .bind (.mapM fun fw _ ↦ onlyTells_adapterHolds l fw) fun _ ↦ .pure _

/-- The gate is closed just if the frameworks are texts and there is no report on one of them. -/
lemma gives_governanceHolds_false_iff : Gives (governanceHolds l frameworks) s false ↔
      ∃ names : List String, frameworks.elements = .ok (names.map .str) ∧
        (∃ installed, Gives (isFile (adapterChecker l)) s installed) ∧
        ∃ name ∈ names, ¬Reported l s name := by
  have htells (items : List Json) : OnlyTells (items.mapM (adapterHolds l)) :=
    .mapM fun fw _ ↦ onlyTells_adapterHolds l fw
  have hrest (items : List Json) : OnlyTells (do return (← items.mapM (adapterHolds l)).all id) :=
    .bind (htells items) fun _ ↦ .pure _
  rw [governanceHolds, gives_bind (.say _) fun _ ↦ .bind (.lift _) hrest]
  simp only [gives_bind (.lift _) hrest, gives_bind (htells _) fun _ ↦ .pure _,
    gives_lift, gives_pure, gives_mapM_adapterHolds_iff]
  constructor
  · rintro ⟨_, -, _, hitems, _, ⟨names, rfl, hinstalled, rfl⟩, hclosed⟩
    obtain ⟨name, hname, hnot⟩ : ∃ name ∈ names, ¬Reported l s name := by simpa using hclosed
    exact ⟨names, hitems, hinstalled (ne_nil_of_mem hname), name, hname, hnot⟩
  · rintro ⟨names, hnames, hinstalled, hnot⟩
    exact ⟨(), ⟨_, rfl⟩, _, hnames, _, ⟨names, rfl, fun _ ↦ hinstalled, rfl⟩, by simpa using hnot⟩

/-! ## The whole run -/

lemma onlyTells_readOrNull (p : Path) : OnlyTells (readOrNull p) := by
  refine .bind (.isPresent p) fun present ↦ ?_
  split
  · exact .readJson p
  · exact .pure _

lemma onlyTells_readMapping (l : Layout) (fw : Json) : OnlyTells (readMapping l fw) := by
  refine .bind (.lift _) fun home ↦ .bind (.isPresent _) fun present ↦ ?_
  split
  · exact .bind (.readJson _) fun _ ↦ .pure _
  · exact .pure _

/-- Behind the gate a run fails with a fault only, before it has written anything. -/
lemma failsSafely_enrichBy (l : Layout) (frameworks : Json) {stops : List Stop} :
    FailsSafely (enrichBy l frameworks) stops := by
  refine (onlyTells_readOrNull _).bind_failsSafely fun raw ↦
    (onlyTells_readOrNull _).bind_failsSafely fun before ↦
    (onlyTells_readOrNull _).bind_failsSafely fun report ↦ ?_
  extract_lets write
  have hwrite (u : Unit) : FailsSafely (write u) stops := by
    refine (lift _).bind_failsSafely fun plan ↦ (OnlyTells.say _).bind_failsSafely fun _ ↦
      (OnlyTells.say _).bind_failsSafely fun _ ↦ (lift _).bind_failsSafely fun items ↦
      (mapM fun fw _ ↦ (onlyTells_readMapping l fw).attempt).bind_failsSafely fun _ ↦
      (lift _).bind_failsSafely fun _ ↦ ?_
    exact (failsSafely_writeText _ _).bind fun _ _ ↦ ⟨_, _, rfl⟩
  split <;> exact (OnlyTells.say _).bind_failsSafely hwrite

/-- Why a run ends with exit code 1: there is no profile, no graph, or no report on some adapter. -/
inductive Refused (l : Layout) (s : Session) : Prop
  | noProfile (h : Gives (isPresent l.profile) s false)
  | noGraph (hprofile : Gives (isPresent l.profile) s true) (h : Gives (isPresent l.graph) s false)
  | noReport (hprofile : Gives (isPresent l.profile) s true)
      (hgraph : Gives (isPresent l.graph) s true) {profile frameworks : Json} {names : List String}
      (hread : Gives (readJson l.profile) s profile)
      (hframeworks : profile.getD "frameworks" (.arr []) = .ok frameworks)
      (hnames : frameworks.elements = .ok (names.map .str)) {installed : Bool}
      (hchecker : Gives (isFile (adapterChecker l)) s installed) {name : String}
      (hname : name ∈ names) (hnot : ¬Reported l s name)

lemma exits_gate_iff (h : SameFiles s t) :
    (∃ u, (do if !(← governanceHolds l frameworks) then exit 1
              enrichBy l frameworks : Command Unit) t = .error (.exit 1) u) ↔
      Gives (governanceHolds l frameworks) s false := by
  have hholds := onlyTells_governanceHolds l frameworks
  refine (hholds.exits_bind (R := (· = false)) h fun holds u _ ↦ ?_).trans (by simp)
  cases holds with
  | false => exact iff_of_true ⟨_, rfl⟩ rfl
  | true =>
    refine iff_of_false (fun ⟨v, hv⟩ ↦ ?_) (by simp)
    have hsafe : FailsSafely (enrichBy l frameworks) [] := failsSafely_enrichBy l frameworks
    obtain ⟨-, ⟨f, hf⟩ | hnone⟩ := hsafe u _ v hv
    · cases hf
    · cases hnone

lemma exits_iff : (∃ t, enrich l s = .error (.exit 1) t) ↔ ∃ hasProfile,
    Gives (isPresent l.profile) s hasProfile ∧ (hasProfile = true → ∃ hasGraph,
      Gives (isPresent l.graph) s hasGraph ∧ (hasGraph = true → ∃ profile,
        Gives (readJson l.profile) s profile ∧ ∃ frameworks,
          profile.getD "frameworks" (.arr []) = .ok frameworks ∧
            Gives (governanceHolds l frameworks) s false)) := by
  refine exits_bind (.isPresent _) (.refl s) fun hasProfile u hu ↦ ?_
  cases hasProfile with
  | false => exact iff_of_true ⟨_, rfl⟩ (by simp)
  | true =>
    refine (exits_bind (.isPresent _) hu fun hasGraph v hv ↦ ?_).trans (imp_iff_right rfl).symm
    cases hasGraph with
    | false => exact iff_of_true ⟨_, rfl⟩ (by simp)
    | true =>
      refine (exits_bind (.readJson _) hv fun profile w hw ↦ ?_).trans (imp_iff_right rfl).symm
      simp only [← gives_lift (s := s)]
      exact exits_bind (.lift _) hw fun frameworks x hx ↦ exits_gate_iff hx

lemma exits_iff_refused : (∃ t, enrich l s = .error (.exit 1) t) ↔ Refused l s := by
  rw [exits_iff]
  constructor
  · rintro ⟨_ | _, hprofile, h⟩
    · exact .noProfile hprofile
    obtain ⟨_ | _, hgraph, h⟩ := h rfl
    · exact .noGraph hprofile hgraph
    obtain ⟨profile, hread, frameworks, hframeworks, hclosed⟩ := h rfl
    obtain ⟨names, hnames, ⟨_, hchecker⟩, _, hname, hnot⟩ :=
      gives_governanceHolds_false_iff.1 hclosed
    exact .noReport hprofile hgraph hread hframeworks hnames hchecker hname hnot
  · intro h
    cases h with
    | noProfile h => exact ⟨false, h, by simp⟩
    | noGraph hprofile h => exact ⟨true, hprofile, fun _ ↦ ⟨false, h, by simp⟩⟩
    | noReport hprofile hgraph hread hframeworks hnames hchecker hname hnot =>
      exact ⟨true, hprofile, fun _ ↦ ⟨true, hgraph, fun _ ↦ ⟨_, hread, _, hframeworks,
        gives_governanceHolds_false_iff.2 ⟨_, hnames, ⟨_, hchecker⟩, _, hname, hnot⟩⟩⟩⟩

lemma Refused.exits (h : Refused l s) : ∃ t, enrich l s = .error (.exit 1) t :=
  exits_iff_refused.2 h

lemma failsSafely_enrich (l : Layout) : FailsSafely (enrich l) [.exit 1] := by
  have hexit (f : PUnit → Command Unit) : FailsSafely ((exit 1 : Command PUnit) >>= f)
      [.exit 1] := by
    intro s e t h
    cases h
    exact ⟨.refl s, .inr (by simp)⟩
  refine (OnlyTells.isPresent _).bind_failsSafely fun hasProfile ↦ ?_
  split
  · exact (OnlyTells.say _).bind_failsSafely fun _ ↦ hexit _
  refine (OnlyTells.isPresent _).bind_failsSafely fun hasGraph ↦ ?_
  split
  · exact (OnlyTells.say _).bind_failsSafely fun _ ↦ hexit _
  refine (OnlyTells.readJson _).bind_failsSafely fun profile ↦ (lift _).bind_failsSafely
    fun frameworks ↦ ?_
  refine (onlyTells_governanceHolds l frameworks).bind_failsSafely fun holds ↦ ?_
  split
  · exact hexit _
  · exact failsSafely_enrichBy l frameworks

/-- A run that does not end with a value has left the files alone. It has met a fault, or it was
refused. -/
lemma enrich_of_error {e : Stop} (h : enrich l s = .error e t) :
    SameFiles s t ∧ ((∃ f, e = .fault f) ∨ e = .exit 1 ∧ Refused l s) := by
  obtain ⟨hsame, hfault | hexit⟩ := failsSafely_enrich l s e t h
  · exact ⟨hsame, .inl hfault⟩
  · obtain rfl := mem_singleton.1 hexit
    exact ⟨hsame, .inr ⟨rfl, exits_iff_refused.1 ⟨t, h⟩⟩⟩

/-- A run ends with exit code 1 just if there is no profile, no graph, or no report on the adapter
of some framework; what the reports say does not matter. However it stops, the files stay as they
are. -/
theorem enrich_exits_iff (l : Layout) (s : Session) :
    ((∃ t, enrich l s = .error (.exit 1) t) ↔ Refused l s) ∧
      ∀ e t, enrich l s = .error e t → t.tree = s.tree := by
  refine ⟨⟨?_, Refused.exits⟩, fun e t h ↦ (enrich_of_error h).1.tree⟩
  rintro ⟨t, ht⟩
  obtain ⟨-, ⟨f, hf⟩ | ⟨-, hrefused⟩⟩ := enrich_of_error ht
  · cases hf
  · exact hrefused

/-! ## An adapter that breaks the rules -/

/-- Whether a command ends well and leaves a file at a path. -/
def leavesFile (c : Command Unit) (p : Path) (s : Session) : Bool :=
  match c s with
  | .ok _ t => t.tree.isFile (t.cwd.join p)
  | .error _ _ => false

lemma exists_of_leavesFile {c : Command Unit} {p : Path} (h : leavesFile c p s = true) :
    ∃ t, c s = .ok () t ∧ t.tree.isFile (t.cwd.join p) = true := by
  rw [leavesFile] at h
  split at h
  next t ht => exact ⟨t, ht, h⟩
  next => cases h

def rootLayout : Layout :=
  { root := ⟨"/", []⟩, home := ⟨"/", []⟩, tool := ⟨"/", []⟩, adapters := ⟨"/", ["adapters"]⟩,
    interpreter := "python", foreign := fun _ _ _ t ↦ (⟨0, "", ""⟩, t) }

/-- A project with a framework, where the core rules are missing. -/
def unruledSession : Session where
  tree :=
    { entries := [(["adapters"], .directory), (["adapters", "validation"], .directory),
        (["adapters", "validation", "validate_adapter_rules.py"], .file "".toUTF8),
        (["project"], .directory),
        (["project", "profile.json"], .file "\x7b\"frameworks\": [\"django\"]\x7d".toUTF8),
        (["runtime"], .directory),
        (["runtime", "code_knowledge_graph_ast.json"],
          .file "\x7b\"nodes\": [], \"edges\": []\x7d".toUTF8)] }
  cwd := ⟨"/", []⟩
  now := ""

/-- The check finds violations, and the graph with roles is written all the same. -/
theorem enrich_despite_violations :
    (∃ v vs, Gives (adapterViolations (GovernedBy.installed rootLayout.tool) "django")
      unruledSession
        (v :: vs) ∧ (adapterReport "django" (v :: vs)).member? "status" = some (.str "fail")) ∧
      unruledSession.tree.isFile rootLayout.enriched = false ∧
      ∃ t, enrich rootLayout unruledSession = .ok () t ∧
        t.tree.isFile rootLayout.enriched = true := by
  refine ⟨⟨_, _, ⟨_, rfl⟩, rfl⟩, by decide +kernel, ?_⟩
  exact exists_of_leavesFile (p := rootLayout.enriched) (by decide +kernel)

end CodeAtlas.Command
