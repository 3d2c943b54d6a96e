import CodeAtlas.Proofs.BuilderRuns
import CodeAtlas.Proofs.SeparateSketches

/-!
# Directories in two places

A builder takes nothing from a file but its name and its text, and nothing that it has written into
the logs, and no number of a ticket, decides what it does next. Consequently files of the same names
and texts yield the same nodes, edges and tickets; and a file that cannot be read yields nothing,
for whatever reason.

The same directory stands in two places, of one tree or of two. What a builder finds in it depends
on the names below the directory and on what the files hold, with one exception: the names that
exclude a file are looked for on the whole way from the root. So the two graphs agree if both places
are excluded or neither is, and where only one is, they agree only if there is nothing to find.
-/

namespace CodeAtlas.Build

open Stepwise Survey Source Definitions
open Script (Node)

variable {setup : Setup}

/-- Two drafts differ in logs and in the numbers of tickets at most. -/
structure Draft.Matches (d d' : Draft) : Prop where
  nodes : d.nodes = d'.nodes
  edges : d.edges = d'.edges
  tickets : d.ambiguities.map unnumbered = d'.ambiguities.map unnumbered

namespace Draft.Matches

variable {d d' d'' : Draft}

lemma symm (h : d.Matches d') : d'.Matches d := ⟨h.nodes.symm, h.edges.symm, h.tickets.symm⟩

lemma trans (h : d.Matches d') (h' : d'.Matches d'') : d.Matches d'' :=
  ⟨h.nodes.trans h'.nodes, h.edges.trans h'.edges, h.tickets.trans h'.tickets⟩

lemma start (issued issued' : Nat) : Draft.Matches { issued } { issued := issued' } :=
  ⟨rfl, rfl, rfl⟩

lemma of_extends (h : d.Extends False {} d') : d.Matches d' := ⟨h.nodes, h.edges, h.tickets⟩

end Draft.Matches

/-- Two surveys know the same definitions and have drafts that say the same. -/
abbrev Survey.Matches : Survey → Survey → Prop := Beside (fun _ ↦ True) False {}

lemma Survey.Matches.registry_eq {s t : Survey} (h : s.Matches t) :
    s.registry = t.registry := h.registry

namespace References

variable {path : String}

/-- Two states of the second pass are in the same scopes and have surveys that say the same. -/
structure State.Matches (s t : State) : Prop where
  survey : s.survey.Matches t.survey
  scopes : s.scopes = t.scopes

/-- A state as far as names are followed in it. -/
def State.bare (s : State) : State := ⟨⟨{}, s.survey.registry⟩, s.scopes⟩

lemma State.Matches.bare {s t : State} (h : s.Matches t) : s.bare = t.bare := by
  rw [State.bare, State.bare, h.survey.registry_eq, h.scopes]

lemma enclosingClass?_bare (s : State) (scopes : List (Scope Binding)) :
    enclosingClass? s.survey scopes = enclosingClass? s.bare.survey scopes := by
  induction scopes with
  | nil => rfl
  | cons scope rest ih =>
    rw [enclosingClass?, enclosingClass?, ih]
    rfl

lemma receiverMember?_bare (s : State) (value : Node) (name : String) :
    receiverMember? s value name = receiverMember? s.bare value name := by
  rw [receiverMember?, receiverMember?, enclosingClass?_bare]
  rfl

lemma resolve_bare (s : State) (n : Node) : resolve s n = resolve s.bare n := by
  induction n using resolve.induct with
  | case1 => rfl
  | case2 name usage span value ih =>
    rw [resolve, ih]
    simp only [receiverMember?_bare s]
    rfl
  | case3 n hname hattribute =>
    unfold resolve
    split
    next => exact absurd rfl (hname _ _ _ _)
    next => exact absurd rfl (hattribute _ _ _ _)
    next => rfl

lemma parts_bare (s : State) (t : Task) : t.parts path s = t.parts path s.bare := by
  have hresolved (n : Node) (link : String → Task) (kind reason scope : String) :
      Task.resolved s n link kind reason scope = Task.resolved s.bare n link kind reason scope := by
    rw [Task.resolved, Task.resolved, resolve_bare]
  cases t with
  | decorator owner n => exact hresolved _ _ _ _ _
  | base owner n => exact hresolved _ _ _ _ _
  | call line callee => exact hresolved _ _ _ _ _
  | _ => rfl

lemma uniform_onSurvey {step : Surveying Unit} (h : Uniform Matches step) :
    Uniform State.Matches (onSurvey step) := by
  intro s t hst
  cases h s.survey t.survey hst.survey with
  | @ok a s' t' hs ht h' =>
    have hrun : onSurvey step s = .ok a { s with survey := s' } := by rw [onSurvey, hs]
    have hrun' : onSurvey step t = .ok a { t with survey := t' } := by rw [onSurvey, ht]
    exact .ok hrun hrun' ⟨h', hst.scopes⟩
  | @error f s' t' hs ht h' =>
    have hrun : onSurvey step s = .error f { s with survey := s' } := by rw [onSurvey, hs]
    have hrun' : onSurvey step t = .error f { t with survey := t' } := by rw [onSurvey, ht]
    exact .error hrun hrun' ⟨h', hst.scopes⟩

lemma uniform_define (name : String) (b : Binding) : Uniform State.Matches (define name b) := by
  refine .of_modify fun s t h ↦ ?_
  obtain ⟨survey, scopes⟩ := s
  obtain ⟨survey', scopes'⟩ := t
  obtain ⟨hsurvey, rfl⟩ := h
  cases scopes <;> exact ⟨hsurvey, rfl⟩

lemma uniform_enter (id : String) : Uniform State.Matches (enter id) := by
  refine .get_bind fun s t h ↦ ?_
  have hscope : scopeOf s.survey id = scopeOf t.survey id := by
    rw [scopeOf, scopeOf, h.survey.registry_eq]
  rw [hscope]
  refine .of_uniform (.bind (.lift _) fun scope ↦ ?_) h
  exact .of_modify fun s t h ↦ ⟨h.survey, congrArg (scope :: ·) h.scopes⟩

/-- A task goes the same way whatever stands in the logs and however tickets are numbered. -/
lemma Task.uniform_run (t : Task) : Uniform State.Matches (t.run setup path) := by
  induction t using Task.induction_on with
  | h t ih =>
    intro s u h
    cases hstep : t.isStep with
    | false =>
      have hparts : t.parts path u = t.parts path s := by rw [parts_bare, parts_bare s, h.bare]
      refine .congr (falls_run hstep s) (falls_run hstep u) ?_
      rw [hparts]
      refine .lift_bind h fun ts hts ↦ .of_uniform (.forM fun v hv ↦ ?_) h
      exact ih s v (part_of_mem hts hv)
    | true =>
      refine .of_uniform ?_ h
      cases t with
      | link relation a b details => exact uniform_onSurvey (uniform_emitEdge _ trivial trivial _)
      | note kind expression reason scope => exact uniform_onSurvey (uniform_emitTicket _ _ _ _ _)
      | named name b => exact uniform_define name b
      | enter id => exact uniform_enter id
      | leave => exact .of_modify fun s t h ↦ ⟨h.survey, congrArg List.tail h.scopes⟩
      | _ => cases hstep

lemma uniform_visitFile (source : Source) (n : Node) :
    Uniform Matches (visitFile setup source n) := by
  intro s t h
  have hscope : scopeOf t (fileId source.name) = scopeOf s (fileId source.name) := by
    rw [scopeOf, scopeOf, h.registry_eq]
  cases hscopeOf : scopeOf s (fileId source.name) with
  | error f =>
    have hs : visitFile setup source n s = .error f s := by rw [visitFile, hscopeOf]
    have ht : visitFile setup source n t = .error f t := by rw [visitFile, hscope, hscopeOf]
    exact .error hs ht h
  | ok scope =>
    have hvisit : Uniform State.Matches (visit setup source.name 0 n) :=
      Task.uniform_run (.node 0 n)
    cases hvisit ⟨s, [scope]⟩ ⟨t, [scope]⟩ ⟨h, rfl⟩ with
    | @ok _ s' t' hs ht h' =>
      have hs' : visitFile setup source n s = .ok () s'.survey := by
        simp only [visitFile, hscopeOf, hs]
      have ht' : visitFile setup source n t = .ok () t'.survey := by
        simp only [visitFile, hscope, hscopeOf, ht]
      exact .ok hs' ht' h'.survey
    | @error f s' t' hs ht h' =>
      have hs' : visitFile setup source n s = .error f s'.survey := by
        simp only [visitFile, hscopeOf, hs]
      have ht' : visitFile setup source n t = .error f t'.survey := by
        simp only [visitFile, hscope, hscopeOf, ht]
      exact .error hs' ht' h'.survey

end References

namespace Survey

variable {s t : Survey} {a b : Source}

/-- A walk over the trees of two files that are alike; where there is no tree, nothing is done. -/
lemma matches_walk_tree (h : s.Matches t) (hab : a.Alike b) (word : String)
    {f g : String × Node → Surveying Unit} (hfg : ∀ p, Stepwise.Alike Matches (f p) (g p) s t) :
    (s.walk word a ((liftM a.tree : Surveying _) >>= f)).Matches
      (t.walk word b ((liftM b.tree : Surveying _) >>= g)) := by
  obtain ⟨text, ha, hb⟩ | ⟨e, e', ha, hb⟩ := hab.cases
  · have htree : b.tree = a.tree := by rw [tree, tree, ha, hb]
    rw [htree]
    exact beside_walk (fun hlogged ↦ hlogged.elim) (.lift_bind h fun p _ ↦ hfg p) word
  · have ha' : a.tree = .error e := by
      rw [tree, ha]
      rfl
    have hb' : b.tree = .error e' := by
      rw [tree, hb]
      rfl
    rw [ha', hb']
    exact ⟨h.registry, h.fresh, h.owned, h.draft.addLog False.elim⟩

lemma matches_addDefinitions (h : s.Matches t) (hab : a.Alike b) :
    (s.addDefinitions setup a).Matches (t.addDefinitions setup b) := by
  refine matches_walk_tree h hab "error" fun p ↦ ?_
  have hvisit : visitFile setup b p.1 p.2 = visitFile setup a p.1 p.2 := by
    simp only [visitFile, fileSteps, fileNode, hab.name]
  dsimp only
  rw [hvisit]
  exact .of_uniform (uniform_visitFile (fun _ _ _ ↦ trivial) trivial p.1 p.2) h

lemma matches_addReferences (h : s.Matches t) (hab : a.Alike b) :
    (s.addReferences setup a).Matches (t.addReferences setup b) := by
  refine matches_walk_tree h hab "error_pass2" fun p ↦ ?_
  have hvisit : References.visitFile setup b p.2 = References.visitFile setup a p.2 := by
    funext survey
    rw [References.visitFile, References.visitFile, hab.name]
  dsimp only
  rw [hvisit]
  exact .of_uniform (References.uniform_visitFile a p.2) h

end Survey

lemma matches_surveySources {as bs : List Source} (h : List.Forall₂ Alike as bs)
    (issued issued' : Nat) :
    (surveySources setup issued as).draft.Matches (surveySources setup issued' bs).draft := by
  have hstart : Matches { draft := { issued } } { draft := { issued := issued' } } :=
    ⟨rfl, fun _ _ ↦ rfl, fun _ _ ↦ trivial, ⟨rfl, rfl, rfl, False.elim⟩⟩
  have hdefined : Matches (as.foldl (addDefinitions setup) _) (bs.foldl (addDefinitions setup) _) :=
    List.rel_foldl (R := Alike) (fun _ _ hst _ _ hab ↦ matches_addDefinitions hst hab) hstart h
  have hfollowed : Matches (as.foldl (addReferences setup) _) (bs.foldl (addReferences setup) _) :=
    List.rel_foldl (R := Alike) (fun _ _ hst _ _ hab ↦ matches_addReferences hst hab) hdefined h
  exact .of_extends hfollowed.draft

lemma Reader.matches_foldl {r : Reader} {sort : Json → Prop} (hr : r.Reads sort)
    {as bs : List Source} (h : List.Forall₂ Alike as bs) (issued issued' : Nat) :
    (as.foldl r.add { draft := { issued } }).draft.Matches
      (bs.foldl r.add { draft := { issued := issued' } }).draft := by
  have hstart : Sketch.Beside (fun _ ↦ True) {} { draft := { issued } }
    { draft := { issued := issued' } } :=
    ⟨⟨rfl, rfl, rfl, False.elim⟩, fun _ ↦ by simp, fun _ ↦ by simp⟩
  have hbeside := List.rel_foldl (P := Sketch.Beside (fun _ ↦ True) {}) (R := Alike)
    (fun _ _ hst _ _ hab ↦ beside_add hr hab trivial (fun _ _ _ _ _ ↦ trivial) hst) hstart h
  exact .of_extends hbeside.draft

end CodeAtlas.Build

namespace CodeAtlas

open List Fallible

/-! ## The same directory twice -/

namespace Tree

variable {rest : List String} {t t' : Tree}

/-- Each place is listed once, and all that stands below a directory can be reached from the root.
-/
structure Reaches (t : Tree) (root : Path) : Prop where
  keys : t.entries.keys.Nodup
  located : ∀ rest, t.entry? (root.parts ++ rest) ≠ none →
    t.locate ⟨root.root, root.parts ++ rest⟩ = .ok (root.parts ++ rest)

/-- The same stands below a directory of one tree and below a directory of another. -/
structure Relocated (t t' : Tree) (root root' : Path) : Prop where
  reaches : t.Reaches root
  reaches' : t'.Reaches root'
  same : ∀ rest, rest ≠ [] → t.entry? (root.parts ++ rest) = t'.entry? (root'.parts ++ rest)

lemma mem_spotsBelow_iff {spot : List String} :
    rest ∈ t.spotsBelow spot ↔ rest ≠ [] ∧ t.entry? (spot ++ rest) ≠ none := by
  rw [mem_spotsBelow]
  refine and_congr_right fun hrest ↦ ?_
  rw [entry?_of_ne_nil (append_ne_nil_of_right_ne_nil _ hrest), Table.mem_keys_iff,
    ← Option.isSome_iff_ne_none]

namespace Relocated

variable {root root' : Path}

lemma perm_spotsBelow (h : t.Relocated t' root root') :
    (t.spotsBelow root.parts).Perm (t'.spotsBelow root'.parts) := by
  rw [perm_ext_iff_of_nodup (nodup_spotsBelow h.reaches.keys _)
    (nodup_spotsBelow h.reaches'.keys _)]
  intro rest
  rw [mem_spotsBelow_iff, mem_spotsBelow_iff]
  refine and_congr_right fun hrest ↦ ?_
  rw [h.same rest hrest]

lemma toOption_text (h : t.Relocated t' root root')
    (hrest : rest ∈ t.spotsBelow root.parts) (shown shown' : String) :
    (t.text ⟨root.root, root.parts ++ rest⟩ shown).toOption =
      (t'.text ⟨root'.root, root'.parts ++ rest⟩ shown').toOption := by
  obtain ⟨hne, hentry⟩ := mem_spotsBelow_iff.1 hrest
  have hsame := h.same rest hne
  have hlocate := h.reaches.located rest hentry
  have hlocate' := h.reaches'.located rest (hsame ▸ hentry)
  rw [text, text, bytes, bytes, hlocate, hlocate']
  dsimp only
  rw [hsame]
  split <;> rfl

end Relocated

end Tree

namespace Build

open CodeAtlas.Command

lemma mergeSort_spotLe_of_perm {spots spots' : List (List String)} (h : spots.Perm spots') :
    spots.mergeSort spotLe = spots'.mergeSort spotLe := by
  have hle {a b : List String} : spotLe a b = true ↔ a ≤ b := by
    rw [spotLe, Bool.not_eq_true', decide_eq_false_iff_not, not_lt]
  have htrans (a b c : List String) (hab : spotLe a b = true) (hbc : spotLe b c = true) :
      spotLe a c = true := hle.2 ((hle.1 hab).trans (hle.1 hbc))
  have htotal (a b : List String) : (spotLe a b || spotLe b a) = true := by
    rw [Bool.or_eq_true, hle, hle]
    exact le_total a b
  have hperm : (spots.mergeSort spotLe).Perm (spots'.mergeSort spotLe) :=
    (mergeSort_perm _ _).trans (h.trans (mergeSort_perm _ _).symm)
  refine hperm.eq_of_pairwise (fun a b _ _ hab hba ↦ ?_) (pairwise_mergeSort htrans htotal _)
    (pairwise_mergeSort htrans htotal _)
  exact le_antisymm (hle.1 hab) (hle.1 hba)

section TwoPlaces

variable {t t' : Tree} {root root' : Path} {e : Exclusions} {patterns : List String}
  {pattern : String}

lemma scanned_of_relocated (h : t.Relocated t' root root')
    (hexcludes : e.excludes root = e.excludes root') :
    scanned e patterns pattern t root = scanned e patterns pattern t' root' := by
  rw [scanned, scanned, hexcludes]
  split
  · rfl
  · exact mergeSort_spotLe_of_perm (h.perm_spotsBelow.filter _)

/-- The sources of a directory in two places are alike if both places are excluded or neither is. -/
lemma alike_sourcesIn (h : t.Relocated t' root root')
    (hexcludes : e.excludes root = e.excludes root') :
    List.Forall₂ Source.Alike (sourcesIn e patterns pattern t root)
      (sourcesIn e patterns pattern t' root') := by
  rw [sourcesIn, sourcesIn, ← scanned_of_relocated h hexcludes, forall₂_map_left_iff,
    forall₂_map_right_iff, forall₂_same]
  intro rest hrest
  have hbelow := (mem_scanned.1 hrest).2.1
  have hne := (Tree.mem_spotsBelow.1 hbelow).1
  constructor
  · rw [name_sourceAt t root hne, name_sourceAt t' root' hne]
  · exact h.toOption_text hbelow _ _

lemma sourcesIn_of_excludes (h : e.excludes root = true) :
    sourcesIn e patterns pattern t root = [] := by
  rw [sourcesIn, scanned, if_pos h, map_nil]

end TwoPlaces

/-! ## Drafts of sources that are alike -/

/-- What a plan drafts depends on the names and texts of the sources alone, and of no sources it
drafts nothing. -/
structure Plan.IsRegular (plan : Plan) : Prop where
  nothing : ∀ issued, (plan.draft issued []).Matches {}
  alike : ∀ {as bs : List Source}, List.Forall₂ Source.Alike as bs → ∀ issued issued',
    (plan.draft issued as).Matches (plan.draft issued' bs)

lemma isRegular_of_plan {l : Language} {instructions mapping edges : Json} {plan : Plan}
    (hplan : l.plan instructions mapping edges = .ok plan) : plan.IsRegular := by
  cases l with
  | python =>
    simp only [Language.plan, bind_eq_ok, pure_eq_ok] at hplan
    obtain ⟨schema, -, version, -, described, -, schemaVersion, -, rfl⟩ := hplan
    exact ⟨fun issued ↦ .start issued 0, fun h issued issued' ↦
      matches_surveySources h issued issued'⟩
  | html =>
    simp only [Language.plan, bind_eq_ok, pure_eq_ok] at hplan
    obtain ⟨rules, -, setup, -, version, -, rfl⟩ := hplan
    exact ⟨fun issued ↦ .start issued 0,
      fun h ↦ Reader.matches_foldl (MarkupGraph.reads fun _ _ _ _ ↦ trivial) h⟩
  | css =>
    simp only [Language.plan, bind_eq_ok, pure_eq_ok] at hplan
    obtain ⟨rules, -, o, -, version, -, rfl⟩ := hplan
    exact ⟨fun issued ↦ .start issued 0,
      fun h ↦ Reader.matches_foldl (StyleGraph.reads fun _ _ _ _ ↦ trivial) h⟩

/-- Drafts agree where the places are excluded alike, or where there is nothing in either. -/
lemma Plan.IsRegular.matches_iff {plan : Plan} (hplan : plan.IsRegular) {t t' : Tree}
    {root root' : Path}
    (h : t.Relocated t' root root') (e : Exclusions) (patterns : List String) (pattern : String)
    (issued issued' : Nat) : (plan.draft issued (sourcesIn e patterns pattern t root)).Matches
        (plan.draft issued' (sourcesIn e patterns pattern t' root')) ↔
        e.excludes root = e.excludes root' ∨
        (plan.draft issued (sourcesIn e patterns pattern t root)).Matches {} ∧
          (plan.draft issued' (sourcesIn e patterns pattern t' root')).Matches {} := by
  constructor
  · intro hmatches
    by_cases hexcludes : e.excludes root = e.excludes root'
    · exact .inl hexcludes
    -- one of the two places is excluded, and what is found there is found in the other
    right
    have hone : e.excludes root = true ∨ e.excludes root' = true := by
      by_contra hnone
      rw [not_or, Bool.not_eq_true, Bool.not_eq_true] at hnone
      exact hexcludes (hnone.1.trans hnone.2.symm)
    rcases hone with hroot | hroot
    · rw [sourcesIn_of_excludes hroot] at hmatches ⊢
      exact ⟨hplan.nothing issued, hmatches.symm.trans (hplan.nothing issued)⟩
    · rw [sourcesIn_of_excludes hroot] at hmatches ⊢
      exact ⟨hmatches.trans (hplan.nothing issued'), hplan.nothing issued'⟩
  · rintro (hexcludes | ⟨hnothing, hnothing'⟩)
    · exact hplan.alike (alike_sourcesIn h hexcludes) issued issued'
    · exact hnothing.trans hnothing'.symm

/-! ## Builds in two places -/

/-- A builder that is run on the same directory in two places ends well in both, and finds the same
nodes, edges and ambiguities exactly if both places are excluded or neither is, or if it finds
nothing in either. In a place that is excluded it finds nothing. -/
theorem build_agrees_iff_excluded_alike {l : Language} {c c' : Configuration}
    {root root' out out' : Path}
    {instructions mapping edges : Json} {e : Exclusions} {patterns : List String} {s s' : Session}
    {plan : Plan} (hplan : l.plan instructions mapping edges = .ok plan)
    (hready : Ready c root (instructions, mapping, edges) e patterns s)
    (hready' : Ready c' root' (instructions, mapping, edges) e patterns s')
    (hout : Writable s.tree out) (hout' : Writable s'.tree out')
    (hmoved : s.tree.Relocated s'.tree root root') :
    ∃ d d', Emits l c root out s d ∧ Emits l c' root' out' s' d' ∧
      (e.excludes root = true → d.Matches {}) ∧ (e.excludes root' = true → d'.Matches {}) ∧
      (d.Matches d' ↔ e.excludes root = e.excludes root' ∨ d.Matches {} ∧ d'.Matches {}) := by
  have hregular := isRegular_of_plan hplan
  refine ⟨_, _, hready.emits hout hplan, hready'.emits hout' hplan, ?_, ?_, ?_⟩
  · intro hexcludes
    rw [sourcesIn_of_excludes hexcludes]
    exact hregular.nothing _
  · intro hexcludes
    rw [sourcesIn_of_excludes hexcludes]
    exact hregular.nothing _
  · exact hregular.matches_iff hmoved e patterns l.pattern s.issued s'.issued

/-! ### A directory that is excluded in one place -/

/-- What the rules of the builders say about exclusions. -/
def scanRules : String :=
  "\x7b\"scan_policy\":\x7b\"exclude_dirs\":[\"node_modules\",\".git\",\"dist\",\"build\",\"__pycache__\"," ++
    "\"venv\",\".env\",\"_archive\"],\"exclude_file_patterns\":[\"*.min.html\",\"test_output*\"]\x7d\x7d"

def scanDocument : Json :=
  .obj [("scan_policy", (Catalog.builderRules.member? "scan_policy").getD .null)]

/-- A file in a directory of a given name, beside the rules and an empty document. -/
def placedAt (name : String) : Session where
  tree := ⟨[(["doc.json"], .file "\x7b\x7d".toUTF8), (["rules.json"], .file scanRules.toUTF8),
    ([name], .directory), ([name, "a.py"], .file "".toUTF8)]⟩
  cwd := ⟨"/", []⟩
  now := ""

def placedConfiguration : Configuration :=
  ⟨⟨"/", ["doc.json"]⟩, ⟨"/", ["doc.json"]⟩, ⟨"/", ["doc.json"]⟩, ⟨"/", ["rules.json"]⟩⟩

def exclusions : Exclusions := .ofDocument Catalog.builderRules

section Placed

variable {name : String}

lemma readJson_of_bytes {p : Path} {s : Session} {b : ByteArray} {text : String} {v : Json}
    (hbytes : s.tree.bytes (s.cwd.join p) p.text = .ok b) (hreadable : Text.readable b = .ok text)
    (hparse : Json.parse text = .ok v) : readJson p s = .ok v s := by
  have htext : s.tree.text (s.cwd.join p) p.text = .ok text := by
    rw [Tree.text, hbytes]
    exact hreadable
  have hread : readText p s = .ok text s := by
    exact lift_of_ok htext s
  rw [readJson, bind_of_ok hread]
  exact lift_of_ok hparse s

lemma load_placed : Gives placedConfiguration.load (placedAt name) (.obj [], .obj [], .obj []) := by
  have hbytes : (placedAt name).tree.bytes ⟨"/", ["doc.json"]⟩ "/doc.json" =
    .ok "\x7b\x7d".toUTF8 := rfl
  have hreadable : Text.readable "\x7b\x7d".toUTF8 = .ok "\x7b\x7d" := by decide +kernel
  have hparse : Json.parse "\x7b\x7d" = .ok (.obj []) := by decide +kernel
  have hread : readJson ⟨"/", ["doc.json"]⟩ (placedAt name) = .ok (.obj []) (placedAt name) :=
    readJson_of_bytes hbytes hreadable hparse
  have hload : attempt (do
      let instructions ← readJson placedConfiguration.instructions
      let mapping ← readJson placedConfiguration.mapping
      let edges ← readJson placedConfiguration.edges
      return (instructions, mapping, edges)) (placedAt name) =
        .ok (.ok (.obj [], .obj [], .obj [])) (placedAt name) := by
    simp only [placedConfiguration]
    rw [attempt, bind_of_ok hread, bind_of_ok hread, bind_of_ok hread]
    rfl
  refine ⟨placedAt name, ?_⟩
  rw [Configuration.load, bind_of_ok hload]
  rfl

lemma loadExclusions_placed :
    Gives (loadExclusions placedConfiguration.rules) (placedAt name) exclusions := by
  have hbytes : (placedAt name).tree.bytes ⟨"/", ["rules.json"]⟩ "/rules.json" =
    .ok scanRules.toUTF8 := rfl
  have hreadable : Text.readable scanRules.toUTF8 = .ok scanRules := by decide +kernel
  have hparse : Json.parse scanRules = .ok scanDocument := by decide +kernel
  have hexclusions : Exclusions.ofDocument scanDocument = exclusions := by
    have hdirectories : (Exclusions.ofDocument scanDocument).directories =
        exclusions.directories := by
      decide +kernel
    have hpatterns : (Exclusions.ofDocument scanDocument).patterns = exclusions.patterns := by
      decide +kernel
    exact congrArg₂ Exclusions.mk hdirectories hpatterns
  have hread : readJson ⟨"/", ["rules.json"]⟩ (placedAt name) = .ok scanDocument (placedAt name) :=
    readJson_of_bytes hbytes hreadable hparse
  have hpresent : isPresent placedConfiguration.rules (placedAt name) = .ok true (placedAt name) :=
    rfl
  have hattempt : attempt (readJson placedConfiguration.rules) (placedAt name) =
      .ok (.ok scanDocument) (placedAt name) := by
    simp only [placedConfiguration]
    rw [attempt, hread]
  refine ⟨placedAt name, ?_⟩
  rw [loadExclusions, bind_of_ok hpresent, if_pos rfl, bind_of_ok hattempt]
  dsimp only
  rfl

lemma entry?_placed {rest : List String} (hrest : rest ≠ []) :
    Tree.entry? (placedAt name).tree ([name] ++ rest) =
      if rest = ["a.py"] then some (.file "".toUTF8) else none := by
  obtain ⟨n, rest, rfl⟩ := exists_cons_of_ne_nil hrest
  have hdoc : ["doc.json"] ≠ name :: n :: rest := by simp
  have hrules : ["rules.json"] ≠ name :: n :: rest := by simp
  have hroot : [name] ≠ name :: n :: rest := by simp
  rw [Tree.entry?_of_ne_nil (by simp), singleton_append, placedAt, Table.get?_cons, if_neg hdoc,
    Table.get?_cons, if_neg hrules, Table.get?_cons, if_neg hroot, Table.get?_cons, Table.get?_nil]
  simp only [List.cons.injEq, true_and, eq_comm]

lemma reaches_placed (h : name = "build" ∨ name = "work") :
    (placedAt name).tree.Reaches ⟨"/", [name]⟩ := by
  constructor
  · rcases h with rfl | rfl <;> decide +kernel
  · intro rest hentry
    have hrest : rest = [] ∨ rest = ["a.py"] := by
      by_contra hother
      rw [not_or] at hother
      rw [entry?_placed hother.1, if_neg hother.2] at hentry
      exact hentry rfl
    rcases h with rfl | rfl <;> rcases hrest with rfl | rfl <;> decide +kernel

lemma relocated_placed :
    (placedAt "build").tree.Relocated (placedAt "work").tree ⟨"/", ["build"]⟩ ⟨"/", ["work"]⟩ := by
  refine ⟨reaches_placed (.inl rfl), reaches_placed (.inr rfl), fun rest hrest ↦ ?_⟩
  rw [entry?_placed hrest, entry?_placed hrest]

lemma ready_placed (h : name = "build" ∨ name = "work") :
    Ready placedConfiguration ⟨"/", [name]⟩ (.obj [], .obj [], .obj []) exclusions
      ["*.min.html", "test_output*"] (placedAt name) := by
  have hpatterns : exclusions.patterns = .arr ["*.min.html", "test_output*"] := by decide +kernel
  refine ⟨load_placed, loadExclusions_placed, hpatterns, ⟨rfl, fun n hn ↦ ?_⟩, ?_⟩
  · rw [mem_singleton.1 hn]
    rcases h with rfl | rfl <;> exact ⟨by decide, by decide, by decide, by decide⟩
  · rcases h with rfl | rfl <;> decide +kernel

lemma writable_placed (h : name = "build" ∨ name = "work") :
    Writable (placedAt name).tree ⟨"/", ["out.json"]⟩ := by
  refine ⟨⟨rfl, fun n hn ↦ ?_⟩, ?_, ?_, ?_⟩
  · rw [mem_singleton.1 hn]
    exact ⟨by decide, by decide, by decide, by decide⟩
  · rcases h with rfl | rfl <;> decide +kernel
  · rcases h with rfl | rfl <;> exact fun heq ↦ by cases heq
  · rcases h with rfl | rfl <;> decide +kernel

/-- How a script is drafted under empty documents. -/
def bareDraft (issued : Nat) (sources : List Source) : Draft :=
  (surveySources ⟨⟨.obj [], .obj [], []⟩, .obj []⟩ issued sources).draft

lemma exists_bare_plan : ∃ plan, Language.plan (.obj []) (.obj []) (.obj []) .python = .ok plan ∧
    plan.draft = bareDraft := ⟨_, rfl, rfl⟩

end Placed

theorem build_agrees_iff_excluded_alike_placed :
    ∃ d d', Emits .python placedConfiguration ⟨"/", ["build"]⟩ ⟨"/", ["out.json"]⟩
      (placedAt "build") d ∧
      Emits .python placedConfiguration ⟨"/", ["work"]⟩ ⟨"/", ["out.json"]⟩ (placedAt "work") d' ∧
      (exclusions.excludes ⟨"/", ["build"]⟩ = true → d.Matches {}) ∧
      (exclusions.excludes ⟨"/", ["work"]⟩ = true → d'.Matches {}) ∧
      (d.Matches d' ↔ exclusions.excludes ⟨"/", ["build"]⟩ = exclusions.excludes ⟨"/", ["work"]⟩ ∨
        d.Matches {} ∧ d'.Matches {}) := by
  obtain ⟨plan, hplan, -⟩ := exists_bare_plan
  exact build_agrees_iff_excluded_alike hplan (ready_placed (.inl rfl)) (ready_placed (.inr rfl))
    (writable_placed (.inl rfl)) (writable_placed (.inr rfl)) relocated_placed

/-- A script is found in a directory, and is not found in the same directory below an excluded
name. The node of the script makes the difference, also under the documents that come with the
builder. -/
theorem build_differs_below_excluded_name :
    (∃ d d', Gives (loadExclusions placedConfiguration.rules) (placedAt "build") exclusions ∧
      Gives (loadExclusions placedConfiguration.rules) (placedAt "work") exclusions ∧
      (placedAt "build").tree.Relocated (placedAt "work").tree ⟨"/", ["build"]⟩ ⟨"/", ["work"]⟩ ∧
      Emits .python placedConfiguration ⟨"/", ["build"]⟩ ⟨"/", ["out.json"]⟩ (placedAt "build") d ∧
      Emits .python placedConfiguration ⟨"/", ["work"]⟩ ⟨"/", ["out.json"]⟩ (placedAt "work") d' ∧
      d.nodes.length = 0 ∧ d'.nodes.length = 1) ∧
    ∃ plan, Language.plan Catalog.pythonInstructions Catalog.pythonMapping
      Catalog.coreEdges .python =
        .ok plan ∧
      (plan.draft 0 (sourcesIn exclusions ["*.min.html", "test_output*"] "*.py"
        (placedAt "build").tree ⟨"/", ["build"]⟩)).nodes.length = 0 ∧
      (plan.draft 0 (sourcesIn exclusions ["*.min.html", "test_output*"] "*.py"
        (placedAt "work").tree ⟨"/", ["work"]⟩)).nodes.length = 1 := by
  have hnone : sourcesIn exclusions ["*.min.html", "test_output*"] "*.py" (placedAt "build").tree
      ⟨"/", ["build"]⟩ = [] := sourcesIn_of_excludes (by decide +kernel)
  have hscanned : scanned exclusions ["*.min.html", "test_output*"] "*.py" (placedAt "work").tree
      ⟨"/", ["work"]⟩ = [["a.py"]] := by
    have hspots : ((placedAt "work").tree.spotsBelow ["work"]).filter
        (exclusions.keeps ["*.min.html", "test_output*"] "*.py") = [["a.py"]] := by decide +kernel
    rw [scanned, if_neg (by decide +kernel), hspots, List.mergeSort_singleton]
  constructor
  · obtain ⟨plan, hplan, hdraft⟩ := exists_bare_plan
    refine ⟨_, _, loadExclusions_placed, loadExclusions_placed, relocated_placed,
      (ready_placed (.inl rfl)).emits (writable_placed (.inl rfl)) hplan,
      (ready_placed (.inr rfl)).emits (writable_placed (.inr rfl)) hplan, ?_, ?_⟩
    · rw [Language.pattern, hnone, hdraft]
      rfl
    · rw [sourcesIn, Language.pattern, hscanned, hdraft]
      decide +kernel
  · refine ⟨_, rfl, ?_, ?_⟩
    · rw [hnone]
      rfl
    · rw [sourcesIn, hscanned]
      decide +kernel

end Build

end CodeAtlas
