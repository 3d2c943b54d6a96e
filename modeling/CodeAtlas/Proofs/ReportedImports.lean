import CodeAtlas.Command.Program
import CodeAtlas.Proofs.Assembly

/-!
# Imports that a card reports

The walk that fills a card goes into coroutines and classes, but not into functions. So a card lists
exactly what is imported outside of functions: what is imported in a function is listed just if the
same name is imported outside as well, and otherwise the card does not know of it.
-/

namespace CodeAtlas.Inventory

open Fallible Stepwise List
open Script (Form Node)

variable {x : String} {n : Node} {opens : Form → Bool}

/-- A tree stands somewhere in another one, with nothing around it that is not opened. -/
inductive Finds (opens : Form → Bool) : Node → Node → Prop
  | here (n : Node) : Finds opens n n
  | inside {n child m : Node} (hopen : opens n.form = true) (hchild : child ∈ n.children)
      (h : Finds opens child m) : Finds opens n m

/-- The name of something that is imported from a module, or from none that has a name. -/
def fullName (source : Option String) (name : String) : String :=
  match source with
  | some module => if module = "" then name else module ++ "." ++ name
  | none => name

/-- The names that an import statement imports. -/
def imported : Form → List String
  | .import_ names => names.map Script.Alias.name
  | .importFrom source names _ => names.map fun a ↦ fullName source a.name
  | _ => []

/-- A name is imported somewhere in a tree, with nothing around it that is not opened. -/
def Imports (opens : Form → Bool) (tree : Node) (x : String) : Prop :=
  ∃ n, Finds opens tree n ∧ x ∈ imported n.form

lemma imports_iff : Imports opens n x ↔
    x ∈ imported n.form ∨ opens n.form = true ∧ ∃ child ∈ n.children, Imports opens child x := by
  constructor
  · rintro ⟨m, hm, hx⟩
    cases hm with
    | here => exact .inl hx
    | inside hopen hchild hm => exact .inr ⟨hopen, _, hchild, m, hm, hx⟩
  · rintro (hx | ⟨hopen, child, hchild, m, hm, hx⟩)
    · exact ⟨n, .here n, hx⟩
    · exact ⟨m, .inside hopen hchild hm, hx⟩

/-- A tree in another one either has nothing closed around it or stands in something that is closed.
-/
lemma Finds.cases_closed {m : Node} (h : Finds (fun _ ↦ true) n m) : Finds opens n m ∨
    ∃ f, Finds opens n f ∧ opens f.form = false ∧
      ∃ child ∈ f.children, Finds (fun _ ↦ true) child m := by
  induction h with
  | here n => exact .inl (.here n)
  | @inside n child m _ hchild h ih =>
    cases hopen : opens n.form with
    | false => exact .inr ⟨n, .here n, hopen, child, hchild, h⟩
    | true =>
      rcases ih with hm | ⟨f, hf, hinner⟩
      · exact .inl (.inside hopen hchild hm)
      · exact .inr ⟨f, .inside hopen hchild hf, hinner⟩

lemma Finds.then_inside {f child m : Node} (hf : Finds opens n f) (hchild : child ∈ f.children)
    (h : Finds (fun _ ↦ true) child m) : Finds (fun _ ↦ true) n m := by
  induction hf with
  | here n => exact .inside rfl hchild h
  | inside _ hmem _ ih => exact .inside rfl hmem (ih hchild)

/-- All that is imported in a tree is imported where it is open just if that is so for what is
imported in something closed. -/
lemma forall_imports_iff : (∀ x, Imports (fun _ ↦ true) n x → Imports opens n x) ↔
    ∀ f, Finds opens n f → opens f.form = false → ∀ child ∈ f.children, ∀ x,
      Imports (fun _ ↦ true) child x → Imports opens n x := by
  constructor
  · rintro h f hf - child hchild x ⟨m, hm, hx⟩
    exact h x ⟨m, hf.then_inside hchild hm, hx⟩
  · rintro h x ⟨m, hm, hx⟩
    rcases hm.cases_closed with hm | ⟨f, hf, hclosed, child, hchild, hm⟩
    · exact ⟨m, hm, hx⟩
    · exact h f hf hclosed child hchild x ⟨m, hm, hx⟩

/-- What a walk looks into. A function is no coroutine here, and nothing stands in an import. -/
def isOpen : Form → Bool
  | .function _ false _ _ | .import_ _ | .importFrom .. => false
  | _ => true

namespace Facts

lemma imports_ofImport (source : Option String) (names : List Script.Alias) :
    (ofImport source names).imports = names.map fun a ↦ fullName source a.name := by
  refine map_congr_left fun a _ ↦ ?_
  cases source with
  | none => exact String.empty_append
  | some module =>
    by_cases h : module = "" <;> simp [fullName, h, Option.filter]

lemma imports_ofCallee (callee : Option Node) : ((callee.map ofCallee).getD {}).imports = [] := by
  cases callee with
  | none => rfl
  | some callee =>
    show (ofCallee callee).imports = []
    unfold ofCallee
    split <;> rfl

mutual

lemma mem_imports_ofNode : (n : Node) → (x ∈ (ofNode n).imports ↔ Imports isOpen n x)
  | .mk form span children => by
    unfold ofNode
    rw [imports_iff]
    cases form with
    | function name isAsync body decorators =>
      cases isAsync with
      | false => simp [imported, isOpen, Node.form]
      | true => simp [imported, isOpen, Node.form, Node.children, mem_imports_ofNodes children]
    | import_ names => simp [imported, isOpen, Node.form, imports_ofImport, fullName]
    | importFrom source names level => simp [imported, isOpen, Node.form, imports_ofImport]
    | classDef name bases keywords body =>
      simp [imported, isOpen, Node.form, Node.children, append, mem_imports_ofNodes children]
    | call args =>
      simp [imported, isOpen, Node.form, Node.children, append, imports_ofCallee,
        mem_imports_ofNodes children]
    | _ => simp [imported, isOpen, Node.form, Node.children, mem_imports_ofNodes children]

lemma mem_imports_ofNodes : (ns : List Node) →
    (x ∈ (ofNodes ns).imports ↔ ∃ n ∈ ns, Imports isOpen n x)
  | [] => by simp [ofNodes]
  | n :: rest => by simp [ofNodes, append, mem_imports_ofNode n, mem_imports_ofNodes rest]

end

end Facts

namespace FileCard

lemma member?_edges (card : FileCard) :
    card.edges.member? "imports" = some (listed card.facts.imports) := rfl

lemma exists_listed (names : List String) : ∃ items, listed names = .arr items ∧
    ∀ x, .str x ∈ items ↔ x ∈ names := by
  refine ⟨_, rfl, fun x ↦ ?_⟩
  simp [mem_eraseDups]

lemma facts_of_ofTree {name path hash : String} {card : FileCard}
    (h : ofTree name path hash n = .ok card) : card.facts = Facts.ofNode n := by
  obtain ⟨facts, hfacts, h⟩ := bind_eq_ok.1 h
  obtain rfl := pure_eq_ok.1 h
  rw [Facts.ofTree] at hfacts
  split at hfacts
  · cases hfacts
  · exact (Except.ok.inj hfacts).symm

end FileCard

/-- The card of a file that can be read lists what the file imports outside of functions. So it
lists all that the file imports just if whatever a function imports is imported outside of functions
too. -/
theorem card_imports_iff {p : Path} {path : String} {s : Session} {card : FileCard}
    (h : Command.Gives (Command.fileCard p path) s card) :
    ∃ text tree items, Command.Gives (Command.readText p) s text ∧ Script.parse text = .ok tree ∧
      card.edges.member? "imports" = some (.arr items) ∧
      (∀ x, .str x ∈ items ↔ Imports isOpen tree x) ∧
      ((∀ x, Imports (fun _ ↦ true) tree x → .str x ∈ items) ↔
        ∀ f, Finds isOpen tree f → isOpen f.form = false → ∀ child ∈ f.children, ∀ x,
          Imports (fun _ ↦ true) child x → Imports isOpen tree x) := by
  obtain ⟨s', h⟩ := h
  obtain ⟨text, s₁, htext, h⟩ := run_bind_eq_ok.1 h
  obtain ⟨_, _, -, h⟩ := run_bind_eq_ok.1 h
  obtain ⟨_, _, -, h⟩ := run_bind_eq_ok.1 h
  obtain ⟨bytes, _, -, h⟩ := run_bind_eq_ok.1 h
  obtain ⟨tree, _, htree, h⟩ := run_bind_eq_ok.1 h
  have hfacts := FileCard.facts_of_ofTree (Command.of_lift_eq_ok h).1
  obtain ⟨items, hitems, hlisted⟩ := FileCard.exists_listed card.facts.imports
  have hall (x : String) : .str x ∈ items ↔ Imports isOpen tree x := by
    rw [hlisted, hfacts, Facts.mem_imports_ofNode]
  refine ⟨text, tree, items, ⟨s₁, htext⟩, (Command.of_lift_eq_ok htree).1,
    congrArg some hitems, hall, ?_⟩
  simp only [hall]
  exact forall_imports_iff

def fileSession (text : String) : Session :=
  { tree := ⟨[(["a.py"], .file text.toUTF8)]⟩, cwd := ⟨"/", []⟩, now := "" }

def cardIn (text : String) : Option FileCard :=
  Command.value? (Command.fileCard ⟨"", ["a.py"]⟩ "a.py") (fileSession text)

def functionImport : String := "def f():\n    import os\n"

theorem card_imports_iff_twice :
    ∃ card tree items, cardIn ("import os\n" ++ functionImport) = some card ∧
    card.edges.member? "imports" = some (.arr items) ∧ .str "os" ∈ items ∧
    ∀ x, .str x ∈ items ↔ Imports isOpen tree x := by
  have himports : (cardIn ("import os\n" ++ functionImport)).map (fun card ↦ card.facts.imports) =
      some ["os"] := by decide +kernel
  obtain ⟨card, hcard, hlisted⟩ := Option.map_eq_some_iff.1 himports
  obtain ⟨-, tree, items, -, -, hitems, hall, -⟩ :=
    card_imports_iff (Command.value?_eq_some_iff.1 hcard)
  refine ⟨card, tree, items, hcard, hitems, ?_, hall⟩
  rw [FileCard.member?_edges, hlisted] at hitems
  cases hitems
  simp [mem_eraseDups]

/-- What only a function imports is not listed. -/
theorem function_import_lost : ∃ card tree, cardIn functionImport = some card ∧
    card.edges.member? "imports" = some (.arr []) ∧ Script.parse functionImport = .ok tree ∧
    Imports (fun _ ↦ true) tree "os" := by
  have himports : (cardIn functionImport).map (fun card ↦ card.facts.imports) = some [] :=
    by decide +kernel
  have hform : (Script.parse functionImport).toOption.bind (fun tree ↦
      tree.children.head?.bind fun f ↦ f.children.getLast?.map Node.form) =
        some (.import_ [⟨"os", none⟩]) := by decide +kernel
  obtain ⟨card, hcard, hlisted⟩ := Option.map_eq_some_iff.1 himports
  obtain ⟨tree, htree, hform⟩ := Option.bind_eq_some_iff.1 hform
  obtain ⟨f, hf, hform⟩ := Option.bind_eq_some_iff.1 hform
  obtain ⟨n, hn, hform⟩ := Option.map_eq_some_iff.1 hform
  refine ⟨card, tree, hcard, ?_, toOption_eq_some.1 htree, n, ?_, ?_⟩
  · simp [FileCard.member?_edges, FileCard.listed, hlisted]
  · exact .inside rfl (mem_of_head? hf) (.inside rfl (mem_of_getLast? hn) (.here n))
  · rw [hform]
    exact mem_singleton_self _

end CodeAtlas.Inventory
