import CodeAtlas.Command.Ask
import CodeAtlas.Proofs.GovernanceGate
import CodeAtlas.Proofs.ListedFiles

/-!
# Answers as text

The commands that answer questions print a document for programs, or a short text for people. The
switch between the two changes nothing else about a command, so where the document can be printed
there is an answer. For people, a list is printed item by item, each with its id and its type, so
its items must be objects. All answers are such lists or no lists at all, but for the list of files,
whose items are paths.
-/

namespace CodeAtlas

open Fallible List Table CodeAtlas.Graph

namespace Arguments

variable {name switch : String} {words : List String} {u : Usage} {v : Values}
variable {commands : List (String × Usage)}

/-- A switch in front of the other words adds its own value and changes nothing else. -/
lemma parse_cons (hswitch : pieceOf u.options switch = .ok (.option ⟨switch, .nothing⟩ .nothing))
    (h : parse u words = .ok v) : parse u (switch :: words) = .ok (v ++ [(switch, .on)]) := by
  obtain ⟨pieces, hpieces, h⟩ := bind_eq_ok.1 h
  obtain ⟨p, hp, h⟩ := bind_eq_ok.1 h
  have hall : piecesOf u.options (switch :: words) =
      .ok (.option ⟨switch, .nothing⟩ .nothing :: pieces) := by
    rw [piecesOf, hswitch, hpieces]
    rfl
  have hcollect : collect u.options (pieces.length + 1 + 1) u.positionals
      (.option ⟨switch, .nothing⟩ .nothing :: pieces) = .ok (p.add [(switch, .on)]) := by
    change (collect u.options (pieces.length + 1) u.positionals pieces >>= fun p ↦ pure (p.add _)) =
      _
    rw [hp]
    rfl
  refine bind_eq_ok.2 ⟨_, hall, bind_eq_ok.2 ⟨_, hcollect, ?_⟩⟩
  split at h
  next hcomplete =>
    cases h
    exact if_pos hcomplete
  next => cases h

lemma parseNamed_eq_ok : parseNamed name u words = .ok v ↔ parse u words = .ok v := by
  rw [parseNamed]
  split
  next h => simp [h]
  next => rfl

/-- A command line names a command just if it begins with the name and the command takes the rest.
-/
lemma parseCommand_eq_some_iff : parseCommand commands words = .ok (some (name, v)) ↔
    ∃ text rest u pieces, words = name :: rest ∧ pieceOf helpOptions name = .ok (.argument text) ∧
      piecesOf helpOptions rest = .ok pieces ∧ get? commands name = some u ∧
      parse u rest = .ok v := by
  constructor
  · intro h
    obtain ⟨pieces, hpieces, h⟩ := bind_eq_ok.1 h
    split at h
    next rest _ =>
      obtain ⟨piece, hpiece, hpieces⟩ := bind_eq_ok.1 hpieces
      split at h
      next u hu =>
        obtain ⟨v', hv, h⟩ := bind_eq_ok.1 h
        cases h
        cases piece with
        | argument text =>
          obtain ⟨pieces, hrest, -⟩ := bind_eq_ok.1 hpieces
          exact ⟨text, rest, u, pieces, rfl, hpiece, hrest, hu, parseNamed_eq_ok.1 hv⟩
        | divider => cases hpieces
        | _ =>
          obtain ⟨_, _, hpieces⟩ := bind_eq_ok.1 hpieces
          cases hpieces
      next => cases h
    next => cases h
    next => cases h
  · rintro ⟨text, rest, u, pieces, rfl, hname, hpieces, hu, hv⟩
    have hall : piecesOf helpOptions (name :: rest) = .ok (.argument text :: pieces) := by
      rw [piecesOf, hname, hpieces]
      rfl
    refine bind_eq_ok.2 ⟨_, hall, ?_⟩
    simp only [hu]
    exact bind_eq_ok.2 ⟨v, parseNamed_eq_ok.2 hv, rfl⟩

end Arguments

namespace Graph

lemma mem_of_findNode? {id n : Json} {nodes : List Json} (h : findNode? id nodes = .ok (some n)) :
    n ∈ nodes := by
  induction nodes with
  | nil => cases h
  | cons m rest ih =>
    obtain ⟨own, -, h⟩ := bind_eq_ok.1 h
    split at h
    next =>
      cases h
      exact mem_cons_self
    next => exact mem_cons_of_mem m (ih h)

lemma search_subset {g query type : Json} {nodes found : List Json} (hnodes : nodesOf g = .ok nodes)
    (h : search g query type = .ok found) : found ⊆ nodes := by
  simp only [search, hnodes, bind_eq_ok, pure_eq_ok] at h
  obtain ⟨wanted, -, _, ⟨⟩, all, hall, rfl⟩ := h
  intro n hn
  exact (((filterM_eq_ok hall).2 n).1 (mem_of_mem_take hn)).1

lemma foldlM_gather_spec {seen all : Table Key Json} {paths : List Json}
    (h : paths.foldlM gather seen = .ok all) (hseen : ∀ v ∈ seen.values, ¬v.IsObject) :
    (∀ v ∈ all.values, ¬v.IsObject) ∧ (all = [] ↔ seen = [] ∧ paths = []) := by
  induction paths generalizing seen with
  | nil =>
    cases h
    exact ⟨hseen, by simp⟩
  | cons p paths ih =>
    obtain ⟨next, hnext, h⟩ := bind_eq_ok.1 h
    obtain ⟨k, hk, hnext⟩ := bind_eq_ok.1 hnext
    have hp : ¬p.IsObject := by
      rintro ⟨m, rfl⟩
      cases hk
    cases hnext
    split at h
    next hcontained =>
      obtain ⟨hall, hempty⟩ := ih h hseen
      refine ⟨hall, hempty.trans ?_⟩
      cases seen with
      | nil => cases hcontained
      | cons e rest => simp
    next =>
      have hvalues : ∀ v ∈ values (seen ++ [(k, p)]), ¬v.IsObject := by
        rw [values, map_append, forall_mem_append]
        exact ⟨hseen, by simpa using hp⟩
      obtain ⟨hall, hempty⟩ := ih h hvalues
      exact ⟨hall, hempty.trans (by simp)⟩

lemma insertValue_perm {v : Json} {vs sorted : List Json} (h : insertValue v vs = .ok sorted) :
    sorted ~ v :: vs := by
  induction vs generalizing sorted with
  | nil =>
    cases h
    exact .refl _
  | cons w rest ih =>
    obtain ⟨b, -, h⟩ := bind_eq_ok.1 h
    split at h
    next =>
      cases h
      exact .refl _
    next =>
      obtain ⟨tail, htail, h⟩ := bind_eq_ok.1 h
      cases h
      exact ((ih htail).cons w).trans (.swap v w rest)

lemma sortValues_perm {vs sorted : List Json} (h : sortValues vs = .ok sorted) : sorted ~ vs := by
  induction vs generalizing sorted with
  | nil =>
    cases h
    exact .refl _
  | cons v rest ih =>
    rw [sortValues, foldrM_cons] at h
    obtain ⟨tail, htail, h⟩ := bind_eq_ok.1 h
    exact (insertValue_perm h).trans ((ih htail).cons v)

def HasPath (n : Json) : Prop := ∃ path, n.member? "file_path" = some path ∧ path.truthy = true

/-- No file that is listed is an object, and none is listed just if no node tells a path. -/
lemma filesOf_spec {g : Json} {nodes files : List Json} (hnodes : nodesOf g = .ok nodes)
    (h : filesOf g = .ok files) : (∀ f ∈ files, ¬f.IsObject) ∧ (files = [] ↔
      ¬∃ n ∈ nodes, HasPath n) := by
  obtain ⟨nodes', hnodes', h⟩ := bind_eq_ok.1 h
  cases hnodes.symm.trans hnodes'
  obtain ⟨paths, hpaths, h⟩ := bind_eq_ok.1 h
  obtain ⟨all, hall, h⟩ := bind_eq_ok.1 h
  obtain ⟨hplain, hempty⟩ := foldlM_gather_spec hall (by simp [values])
  have hperm := sortValues_perm h
  refine ⟨fun f hf ↦ hplain f (hperm.subset hf), ?_⟩
  have hread {path : Json} (hpath : path.truthy = true) (n : Json) :
      n.get "file_path" = .ok path ↔ n.member? "file_path" = some path := by
    rw [Json.get_eq_ok]
    constructor
    · rintro ⟨-, hmember⟩
      cases hm : n.member? "file_path" with
      | none =>
        rw [hm] at hmember
        cases hmember
        cases hpath
      | some v => simpa [hm] using hmember
    · intro hmember
      exact ⟨Json.isObject_of_member? hmember, by rw [hmember, Option.getD_some]⟩
  calc files = [] ↔ all.values = [] := by
        rw [← length_eq_zero_iff, hperm.length_eq, length_eq_zero_iff]
    _ ↔ paths.filter Json.truthy = [] := by rw [values, map_eq_nil_iff, hempty, and_iff_right rfl]
    _ ↔ _ := by
      rw [filter_eq_nil_iff, not_exists]
      constructor
      · rintro h n ⟨hn, path, hmember, htruthy⟩
        exact h path ((mem_mapM hpaths).2 ⟨n, hn, (hread htruthy n).2 hmember⟩) htruthy
      · intro h path hpath htruthy
        obtain ⟨n, hn, hget⟩ := (mem_mapM hpaths).1 hpath
        exact h n ⟨hn, path, (hread htruthy n).1 hget, htruthy⟩

end Graph

namespace Command

open Arguments

/-- The switch for programs, right after the name of a command, adds its own value and changes
nothing else. -/
lemma parseCommand_json {question : String} {rest : List String} {v : Values}
    (h : parseCommand questions (question :: rest) = .ok (some (question, v))) :
    parseCommand questions (question :: "--json" :: rest) =
    .ok (some (question, v ++ [("--json", .on)])) := by
  obtain ⟨text, _, u, pieces, heq, hname, hpieces, hu, hv⟩ := parseCommand_eq_some_iff.1 h
  cases heq
  have hswitch : ∀ e ∈ questions,
      pieceOf e.2.options "--json" = .ok (.option ⟨"--json", .nothing⟩ .nothing) := by
    decide
  have hahead : piecesOf helpOptions ("--json" :: rest) = .ok (.unknown :: pieces) := by
    rw [piecesOf, hpieces]
    rfl
  exact parseCommand_eq_some_iff.2
    ⟨text, _, u, _, rfl, hname, hahead, hu, parse_cons (hswitch _ (mem_of_get? hu)) hv⟩

/-- A command ends with a value or an exit code. -/
def Faultless {α : Type} (c : Command α) (s : Session) : Prop := ∀ f t, c s ≠ .error (.fault f) t

def endsInFault {α : Type} (c : Command α) (s : Session) : Bool :=
  match c s with
  | .error (.fault _) _ => true
  | _ => false

section Faultless

variable {α β : Type} {c : Command α} {f : α → Command β} {a : α} {s t : Session}

instance : Decidable (Faultless c s) :=
  decidable_of_iff (endsInFault c s = false) (by grind [Faultless, endsInFault])

lemma Gives.faultless (h : Gives c s a) : Faultless c s := by
  obtain ⟨t, ht⟩ := h
  intro f u hu
  cases ht.symm.trans hu

lemma Faultless.of_bind (h : Faultless (c >>= f) s) : Faultless c s := by
  intro e t ht
  exact h e t (bind_of_error ht)

lemma Faultless.bind (hc : Faultless c s) (hf : ∀ a t, c s = .ok a t → Faultless (f a) t) :
    Faultless (c >>= f) s := by
  intro e u hu
  cases hrun : c s with
  | ok a t => exact hf a t hrun e u ((bind_of_ok hrun).symm.trans hu)
  | error e' t =>
    rw [bind_of_error hrun] at hu
    cases hu
    exact hc _ _ hrun

lemma faultless_bind_of_ok (h : c s = .ok a t) : Faultless (c >>= f) s ↔ Faultless (f a) t := by
  rw [Faultless, bind_of_ok h, Faultless]

end Faultless

lemma answerTo_json (root : Path) (g : Json) (question : String) (v : Values) :
    answerTo root g question (v ++ [("--json", .on)]) = answerTo root g question v := by
  have hother (name : String) (hname : "--json" ≠ name) :
      get? (v ++ [("--json", .on)]) name = v.get? name := by
    rw [get?_append, get?_cons, if_neg hname, get?_nil, Option.or_none]
  unfold answerTo
  simp only [Values.text?, Values.int?, hother "node_id" (by decide), hother "query" (by decide),
    hother "--type" (by decide), hother "--depth" (by decide)]

/-- All values that a command ends with have a property. -/
def Yields {α : Type} (P : α → Prop) (c : Command α) : Prop := ∀ s a t, c s = .ok a t → P a

namespace Yields

variable {α β : Type} {P : α → Prop} {Q : β → Prop} {c : Command α} {f : α → Command β}
  {x : Except Fault α}

lemma pure {a : α} (h : P a) : Yields P (Pure.pure a : Command α) := by
  intro s b t hrun
  cases hrun
  exact h

lemma lift (h : ∀ a, x = .ok a → P a) : Yields P (liftM x : Command α) := by
  intro s a t hrun
  cases x with
  | ok b =>
    cases hrun
    exact h _ rfl
  | error e => cases hrun

lemma bind (hc : Yields P c) (hf : ∀ a, P a → Yields Q (f a)) : Yields Q (c >>= f) := by
  intro s b t hrun
  obtain ⟨a, middle, ha, hb⟩ := Stepwise.run_bind_eq_ok.1 hrun
  exact hf a (hc s a middle ha) middle b t hb

lemma top (c : Command α) : Yields (fun _ ↦ True) c := fun _ _ _ _ ↦ trivial

end Yields

/-- An answer that can be listed item by item, if it is a list. -/
def Listable (v : Json) : Prop := ∀ items, v = .arr items → ∀ item ∈ items, item.IsObject

lemma Listable.of_isObject {v : Json} (h : v.IsObject) : Listable v := by
  rintro items rfl
  obtain ⟨m, hm⟩ := h
  cases hm

lemma Listable.obj (members : List (String × Json)) : Listable (.obj members) :=
  .of_isObject ⟨_, rfl⟩

lemma exists_sayItem {item : Json} (h : item.IsObject) (s : Session) :
    ∃ t, sayItem item s = .ok () t := by
  obtain ⟨m, rfl⟩ := h
  exact ⟨_, rfl⟩

lemma not_faultless_sayItem {item : Json} (h : ¬item.IsObject) (s : Session) :
    ¬Faultless (sayItem item) s := by
  intro hfaultless
  cases hid : item.get "id" with
  | ok id => exact h (Json.get_eq_ok.1 hid).1
  | error f =>
    refine hfaultless f s ?_
    rw [sayItem, hid]
    rfl

lemma faultless_sayItems_iff (items : List Json) (s : Session) :
    Faultless (items.forM sayItem) s ↔ ∀ item ∈ items, item.IsObject := by
  induction items generalizing s with
  | nil =>
    simp only [not_mem_nil, false_implies, implies_true, iff_true]
    exact Gives.faultless ⟨s, rfl⟩
  | cons item rest ih =>
    rw [List.forM, forall_mem_cons]
    by_cases hitem : item.IsObject
    · obtain ⟨t, ht⟩ := exists_sayItem hitem s
      rw [faultless_bind_of_ok ht, and_iff_right hitem, ih t]
    · exact iff_of_false (fun h ↦ not_faultless_sayItem hitem s h.of_bind) fun h ↦ hitem h.1

lemma faultless_present_iff (v : Json) (s : Session) :
    Faultless (present v false) s ↔ Listable v := by
  cases v with
  | arr items =>
    have hitems : Listable (.arr items) ↔ ∀ item ∈ items, item.IsObject := by simp [Listable]
    rw [hitems, ← faultless_sayItems_iff items (said s s!"Found {items.length} items:")]
    exact faultless_bind_of_ok rfl
  | obj m =>
    refine iff_of_true ?_ (.obj m)
    by_cases hcontent : contains m "content" = true
    · obtain ⟨v, hv⟩ := Option.isSome_iff_exists.1 hcontent
      have hneed : (Json.obj m).need "content" = .ok v := Json.need_eq_ok.2 hv
      simp only [present, Bool.false_eq_true, if_false, if_pos hcontent, hneed]
      exact Gives.faultless ⟨_, rfl⟩
    · simp only [present, Bool.false_eq_true, if_false, if_neg hcontent]
      exact Gives.faultless ⟨_, rfl⟩
  | _ => exact iff_of_true (Gives.faultless ⟨_, rfl⟩) (by rintro items ⟨⟩)

lemma faultless_present {v : Json} (h : Listable v) (asJson : Bool) (s : Session) :
    Faultless (present v asJson) s := by
  cases asJson with
  | false => exact (faultless_present_iff v s).2 h
  | true => exact Gives.faultless ⟨_, rfl⟩

lemma isObject_trace {g id direction depth v : Json} (h : trace g id direction depth = .ok v) :
    v.IsObject := by
  obtain ⟨⟨results, met⟩, -, h⟩ := bind_eq_ok.1 h
  dsimp only at h
  split at h
  next =>
    cases h
    exact ⟨_, rfl⟩
  next =>
    obtain ⟨_, -, h⟩ := bind_eq_ok.1 h
    obtain ⟨_, -, h⟩ := bind_eq_ok.1 h
    cases h
    exact ⟨_, rfl⟩

lemma isObject_callGraph {g id v : Json} (h : callGraph g id = .ok v) : v.IsObject := by
  simp only [callGraph, bind_eq_ok, pure_eq_ok] at h
  obtain ⟨_, -, _, -, _, -, rfl⟩ := h
  exact ⟨_, rfl⟩

lemma yields_answerTo {g : Json} {nodes : List Json} (hnodes : nodesOf g = .ok nodes)
    (hobjects : ∀ n ∈ nodes, n.IsObject) (root : Path) {question : String} {u : Usage}
    (hquestion : get? questions question = some u) (hother : question ≠ "list-files") (v : Values) :
    Yields Listable (answerTo root g question v) := by
  have hmem : question ∈ questions.map Prod.fst := mem_keys_of_get? hquestion
  simp only [questions, map_cons, map_nil, mem_cons, not_mem_nil, or_false] at hmem
  rcases hmem with rfl | rfl | rfl | rfl | rfl | rfl | rfl | rfl | rfl
  · refine .bind (.lift (P := (· ⊆ nodes)) fun found hfound ↦ search_subset hnodes hfound)
      fun found hfound ↦ .pure ?_
    rintro items ⟨⟩ item hitem
    exact hobjects item (hfound hitem)
  · refine .bind (.top _) fun n? _ ↦ ?_
    split
    · exact .bind (.top _) fun _ _ ↦ .pure (.obj _)
    · exact .pure (.obj _)
  · exact .bind (.top _) fun _ _ ↦ .pure (.obj _)
  · refine .bind (.lift (P := fun n? ↦ ∀ n, n? = some n → n.IsObject) ?_) fun n? hn ↦ .pure ?_
    · rintro _ hfound n rfl
      obtain ⟨nodes', hnodes', hfound⟩ := bind_eq_ok.1 hfound
      cases hnodes.symm.trans hnodes'
      exact hobjects n (mem_of_findNode? hfound)
    · cases n? with
      | none => exact .obj _
      | some n => exact .of_isObject (hn n rfl)
  · exact .lift fun _ h ↦ .of_isObject (isObject_trace h)
  · exact .lift fun _ h ↦ .of_isObject (isObject_trace h)
  · exact .lift fun _ h ↦ .of_isObject (isObject_callGraph h)
  · exact .bind (.top _) fun _ _ ↦ .pure (.obj _)
  · exact absurd rfl hother

variable {l : Layout} {root : Path} {s t : Session} {g : Json} {nodes : List Json}
  {words : List String}

/-- A command line with the switch for programs right after its first word. -/
def forPrograms : List String → List String
  | [] => []
  | question :: rest => question :: "--json" :: rest

lemma ask_eq (hgraph : loadGraph l s = .ok g t) {question : String} {v : Values}
    (hwords : parseCommand questions words = .ok (some (question, v))) :
    ask l root words s =
      (answerTo root g question v >>= fun a ↦ present a (v.isOn "--json")) t := by
  rw [ask, hwords]
  exact bind_of_ok hgraph

lemma faultless_ask_of_ne
    (h : ∀ question v, parseCommand questions words ≠ .ok (some (question, v)))
    (l : Layout) (root : Path) (s : Session) : Faultless (ask l root words) s := by
  intro f t hrun
  cases hwords : parseCommand questions words with
  | ok found =>
    obtain _ | ⟨question, v⟩ := found
    · rw [ask, hwords] at hrun
      cases hrun
    · exact h question v hwords
  | error refusal =>
    rw [ask, hwords] at hrun
    obtain (_ | question) | _ := refusal
    all_goals cases hrun

lemma faultless_files_iff {v : Values} (hnodes : nodesOf g = .ok nodes)
    (h : Faultless (answerTo root g "list-files" v) t) :
    Faultless (answerTo root g "list-files" v >>= fun a ↦ present a false) t ↔
      ¬∃ n ∈ nodes, HasPath n := by
  have hanswer : answerTo root g "list-files" v t =
      (liftM (filesOf g) >>= fun files ↦ pure (Json.arr files) : Command Json) t := rfl
  cases hfiles : filesOf g with
  | error f =>
    rw [hfiles] at hanswer
    exact absurd hanswer (h f t)
  | ok files =>
    rw [hfiles] at hanswer
    obtain ⟨hplain, hempty⟩ := filesOf_spec hnodes hfiles
    rw [faultless_bind_of_ok hanswer, faultless_present_iff, ← hempty]
    constructor
    · intro hlistable
      refine eq_nil_iff_forall_not_mem.2 fun file hfile ↦ ?_
      exact hplain file hfile (hlistable files rfl file hfile)
    · rintro rfl items ⟨⟩ item hitem
      cases hitem

def ListsFiles (words : List String) : Prop :=
  ∃ v, parseCommand questions words = .ok (some ("list-files", v)) ∧ v.isOn "--json" = false

/-- Where a command line gives no fault with the switch for programs, it gives none without it
either, unless it lists the files of a graph that has any. To print is taken never to fail: `say`
gives no fault, and half of a surrogate pair is kept as a private character. -/
theorem plain_faultless_iff (hgraph : Gives (loadGraph l) s g)
    (hnodes : Graph.nodesOf g = .ok nodes)
    (hobjects : ∀ n ∈ nodes, n.IsObject) (hjson : Faultless (ask l root (forPrograms words)) s) :
    Faultless (ask l root words) s ↔ ¬(ListsFiles words ∧
      ∃ n ∈ nodes, HasPath n) := by
  obtain ⟨t, ht⟩ := hgraph
  by_cases hwords : ∃ question v, parseCommand questions words = .ok (some (question, v))
  · obtain ⟨question, v, hwords⟩ := hwords
    obtain ⟨text, rest, u, pieces, rfl, hname, hpieces, hu, hv⟩ := parseCommand_eq_some_iff.1 hwords
    have hanswer : Faultless (answerTo root g question v) t := by
      rw [Faultless, forPrograms, ask_eq ht (parseCommand_json hwords), answerTo_json] at hjson
      exact Faultless.of_bind hjson
    rw [Faultless, ask_eq ht hwords, ← Faultless]
    by_cases hquestion : question = "list-files"
    · subst hquestion
      cases hon : v.isOn "--json" with
      | false => rw [faultless_files_iff hnodes hanswer, and_iff_right ⟨v, hwords, hon⟩]
      | true =>
        refine iff_of_true (hanswer.bind fun a u _ ↦ Gives.faultless ⟨_, rfl⟩) ?_
        rintro ⟨⟨_, h, hoff⟩, -⟩
        cases hwords.symm.trans h
        cases hon.symm.trans hoff
    · refine iff_of_true (hanswer.bind fun a u ha ↦ ?_) ?_
      · exact faultless_present (yields_answerTo hnodes hobjects root hu hquestion v t a u ha) _ u
      · rintro ⟨⟨_, h, -⟩, -⟩
        cases hwords.symm.trans h
        exact hquestion rfl
  · refine iff_of_true (faultless_ask_of_ne (fun question v h ↦ hwords ⟨question, v, h⟩) l root s)
      ?_
    rintro ⟨⟨v, h, -⟩, -⟩
    exact hwords ⟨_, v, h⟩

def listedNode :
    Json := .obj [("id", "a"), ("name", "a"), ("node_type", "File"), ("file_path", "a.py")]

def listedGraph : Json := .obj [("nodes", .arr [listedNode])]

/-- A project whose graph has the node of one file. -/
def listedSession : Session where
  tree :=
    { entries := [(["runtime"], .directory),
        (["runtime", "code_knowledge_graph_ast.json"],
          .file ("\x7b\"nodes\": [\x7b\"id\": \"a\", \"name\": \"a\", \"node_type\": \"File\", " ++
            "\"file_path\": \"a.py\"\x7d]\x7d").toUTF8)] }
  cwd := ⟨"/", []⟩
  now := ""

theorem plain_faultless_search : Gives (loadGraph rootLayout) listedSession listedGraph ∧
    Faultless (ask rootLayout rootLayout.root ["search", "a"]) listedSession := by
  have hgraph : Gives (loadGraph rootLayout) listedSession listedGraph := by decide +kernel
  have hjson : Faultless (ask rootLayout rootLayout.root (forPrograms ["search", "a"]))
      listedSession := by
    decide +kernel
  refine ⟨hgraph, (plain_faultless_iff hgraph rfl ?_ hjson).2 ?_⟩
  · simp [listedNode, Json.IsObject]
  · rintro ⟨⟨v, h, -⟩, -⟩
    obtain ⟨_, _, _, _, hwords, -⟩ := parseCommand_eq_some_iff.1 h
    simp at hwords

/-- The files are listed for programs, but not for people. -/
theorem files_not_listed :
    Faultless (ask rootLayout rootLayout.root ["list-files", "--json"]) listedSession ∧
    ¬Faultless (ask rootLayout rootLayout.root ["list-files"]) listedSession := by
  decide +kernel

end Command

end CodeAtlas
