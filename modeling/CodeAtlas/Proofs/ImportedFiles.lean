import CodeAtlas.Proofs.RegisteredNodes

/-!
# The file that an import names

A dotted name in an import means a registered file whose path is, or ends in, the path that the name
spells. Only files have such ids, as long as names hold no dots, and files are registered in the
order of the sources. Consequently the first of them is meant, which need not be the one at exactly
that path.
-/

namespace CodeAtlas

open List Text

lemma Text.endsWith_iff {whole tail : String} :
    endsWith whole tail = true ↔ tail.toList <:+ whole.toList := by
  rw [endsWith, isPrefixOf_iff_prefix, reverse_prefix]

lemma Text.endsWith_append (front tail : String) : endsWith (front ++ tail) tail = true := by
  rw [endsWith_iff, String.toList_append]
  exact suffix_append _ _

lemma Text.endsWith_of_append {whole front tail : String}
    (h : endsWith whole (front ++ tail) = true) : endsWith whole tail = true := by
  rw [endsWith_iff, String.toList_append] at h
  exact endsWith_iff.2 ((suffix_append _ _).trans h)

lemma find?_concat_of_mem {α : Type} {p : α → Bool} {xs : List α} {x : α} (hx : x ∈ xs) :
    (xs ++ [x]).find? p = xs.find? p := by
  rw [find?_append]
  cases hfound : xs.find? p with
  | some y => rfl
  | none => rw [find?_singleton, if_neg (find?_eq_none.1 hfound x hx)]; rfl

/-- An item that is sought, or else like one that is sought, is found just if there is none such
before it. -/
lemma find?_eq_some_iff_takeWhile {α : Type} [DecidableEq α] {q : α → Bool} {xs : List α} {x : α}
    (hx : x ∈ xs) : xs.find? (fun y ↦ y == x || q y) = some x ↔
    ∀ y ∈ xs.takeWhile (· != x), q y = false := by
  induction xs with
  | nil => cases hx
  | cons y xs ih =>
    by_cases hy : y = x
    · subst hy
      simp
    · have hrest : x ∈ xs := (mem_cons.1 hx).resolve_left fun h ↦ hy h.symm
      rw [takeWhile_cons_of_pos (by simpa using hy), forall_mem_cons, ← ih hrest, find?_cons]
      have hne : (y == x) = false := beq_false_of_ne hy
      cases hq : q y with
      | true => simp [hy]
      | false => simp [hne]

lemma Table.find?_keys_ofList {κ β : Type} [DecidableEq κ] (p : κ → Bool) (entries : Table κ β) :
    (ofList entries).keys.find? p = entries.keys.find? p := by
  induction entries using List.reverseRecOn with
  | nil => rfl
  | append_singleton entries e ih =>
    rw [ofList_concat, keys_append]
    by_cases hmem : e.1 ∈ keys entries
    · rw [keys_put_of_mem (mem_keys_ofList.2 hmem), ih]
      exact (find?_concat_of_mem hmem).symm
    · rw [put_of_notMem (mem_keys_ofList.not.2 hmem), keys_append, find?_append, find?_append, ih]

namespace Build

open Fallible
open Definitions (Step doneSteps)

variable {setup : Setup} {p : String → Bool}

/-- A name without dots does not make an id end like that of a file. -/
lemma endsWith_symbolId (parent : String) {name : String} (hname : '.' ∉ name.toList) :
    endsWith (symbolId parent name) ".py" = false := by
  rw [Bool.eq_false_iff, Ne, endsWith, isPrefixOf_iff_prefix]
  rintro ⟨rest, hrest⟩
  have hlist : (symbolId parent name).toList.reverse =
      name.toList.reverse ++ ':' :: ':' :: parent.toList.reverse := by
    simp [symbolId]
  have hpy : ".py".toList.reverse = ['y', 'p', '.'] := rfl
  rw [hlist, hpy] at hrest
  rw [← mem_reverse] at hname
  generalize name.toList.reverse = letters at hname hrest
  -- The last three letters are those of the name, or one of the colons is among them.
  rcases letters with _ | ⟨a, _ | ⟨b, _ | ⟨c, letters⟩⟩⟩
  · cases hrest
  · cases hrest
  · cases hrest
  · cases hrest
    simp at hname

lemma find?_foldl_idsAfter (p : String → Bool) (steps : List Step) :
    (steps.foldl Step.idsAfter []).find? p = (steps.filterMap Step.id?).find? p := by
  induction steps using List.reverseRecOn with
  | nil => rfl
  | append_singleton steps step ih =>
    rw [foldl_append, filterMap_append, find?_append, ← ih]
    cases step with
    | register id node => exact find?_append
    | once relation around id node =>
      show (Step.idsAfter _ (.once relation around id node)).find? p =
        (_ : Option String).or ([id].find? p)
      rw [Step.idsAfter, ← find?_append]
      split
      next hmem => exact (find?_concat_of_mem hmem).symm
      next => rfl
    | _ => exact Option.or_none.symm

/-- A step that gives no symbol a name with a dot. -/
def Definitions.Step.isPlain (step : Step) : Bool :=
  step.registers?.all fun e ↦
    !Text.endsWith e.1 ("::" ++ told "name" e.2) || !(told "name" e.2).toList.contains '.'

/-- The id of a source that can be read as a file. -/
def Source.file? (source : Source) : Option String :=
  match source.tree with
  | .ok _ => some (fileId source.name)
  | .error _ => none

lemma file_or_plain {path : String} {step : Step} {e : String × Json}
    (harises : step.Arises setup path fun _ ↦ True) (he : step.registers? = some e)
    (hplain : step.isPlain = true) : e.1 = fileId path ∨ endsWith e.1 ".py" = false := by
  obtain ⟨id, node⟩ := e
  cases (harises.registers he).2 with
  | file text n hpath => exact .inl (hpath ▸ rfl)
  | @symbol parent name _ _ _ _ h =>
    -- A symbol tells the name that its id ends in.
    have hname : told "name" node = name := by rw [told, h.name]
    have hends : endsWith (symbolId parent name) ("::" ++ name) = true := by
      rw [symbolId, String.append_assoc]
      exact endsWith_append _ _
    rw [Step.isPlain, he, Option.all_some, hname, hends] at hplain
    exact .inr (endsWith_symbolId parent (by simpa using hplain))

lemma find?_doneSteps (hsetup : setup.Ready) {source : Source}
    (hp : ∀ id, p id = true → endsWith id ".py" = true)
    (hplain : ∀ step ∈ doneSteps setup source, step.isPlain = true) :
    ((doneSteps setup source).filterMap Step.id?).find? p = source.file?.toList.find? p := by
  cases htree : source.tree with
  | error f =>
    rw [doneSteps, Source.file?, htree]
    rfl
  | ok parsed =>
    obtain ⟨text, n⟩ := parsed
    obtain ⟨node, steps, hsteps, hdone⟩ := Definitions.exists_doneSteps hsetup htree
    have harises := Definitions.arises_file setup source text n
    rw [hsteps] at harises
    rw [hdone] at hplain ⊢
    rw [Source.file?, htree]
    show (fileId source.name :: (steps.takeWhile (!·.isFail)).filterMap Step.id?).find? p =
      [fileId source.name].find? p
    rw [find?_cons, find?_singleton]
    split
    next hfile => rw [if_pos hfile]
    next hfile =>
      rw [if_neg (by simp [hfile]), find?_eq_none]
      intro id hid hfound
      obtain ⟨step, hstep, hid⟩ := mem_filterMap.1 hid
      obtain ⟨e, he, rfl⟩ := Option.map_eq_some_iff.1 hid
      have hmem := (takeWhile_sublist _).subset hstep
      rcases file_or_plain (harises step (mem_cons_of_mem _ hmem)) he
        (hplain step (mem_cons_of_mem _ hstep)) with hself | hno
      · rw [hself, hfile] at hfound
        cases hfound
      · rw [hp _ hfound] at hno
        cases hno

/-- The ids that the first pass over some sources registers something under, in order. -/
def registeredIds (setup : Setup) (sources : List Source) : List String :=
  (sources.flatMap (doneSteps setup)).filterMap Step.id?

lemma find?_keys_firstPass (hsetup : setup.Ready) (issued : Nat) (sources : List Source)
    (p : String → Bool) :
    (firstPass setup issued sources).registry.keys.find? p =
    (registeredIds setup sources).find? p := by
  have hfiled := Definitions.filed_firstPass hsetup issued sources
  have hkeys :
      Table.keys ((firstPass setup issued sources).draft.nodes.map fun n ↦ (told "id" n, n)) =
      (sources.flatMap (doneSteps setup)).foldl Step.idsAfter [] := map_map.trans hfiled.ids
  rw [hfiled.agrees, Table.find?_keys_ofList, hkeys, find?_foldl_idsAfter, registeredIds]

lemma find?_registeredIds (hsetup : setup.Ready) {sources : List Source}
    (hp : ∀ id, p id = true → endsWith id ".py" = true)
    (hplain : ∀ step ∈ sources.flatMap (doneSteps setup), step.isPlain = true) :
    (registeredIds setup sources).find? p = (sources.filterMap Source.file?).find? p := by
  rw [registeredIds]
  induction sources with
  | nil => rfl
  | cons source rest ih =>
    rw [flatMap_cons, forall_mem_append] at hplain
    rw [flatMap_cons, filterMap_append, find?_append, find?_doneSteps hsetup hp hplain.1,
      ih hplain.2, filterMap_cons]
    cases source.file? with
    | none => rfl
    | some id =>
      rw [Option.toList_some, ← find?_append]
      rfl

/-- A dotted name means the first registered id that is, or ends in, the path that it spells. So a
file at exactly that path is meant just if no id that is registered before it ends in the path.
Where no symbol has a dot in its name, only the files count, in the order of the sources. -/
theorem first_file_imported (issued : Nat) (sources done : List Source) (name : String) :
    let survey := secondPass scriptSetup issued sources done
    let path := Text.replace "." "/" name ++ ".py"
    let isMeant := fun id ↦ id == path || Text.endsWith id ("/" ++ path)
    References.fileOf? survey name = (registeredIds scriptSetup sources).find? isMeant ∧
    (path ∈ survey.registry.keys → (References.fileOf? survey name = some path ↔
      ∀ id ∈ (registeredIds scriptSetup sources).takeWhile (· != path),
        Text.endsWith id ("/" ++ path) = false)) ∧
    ((∀ step ∈ sources.flatMap (doneSteps scriptSetup), step.isPlain = true) →
      References.fileOf? survey name = (sources.filterMap Source.file?).find? isMeant) := by
  intro survey path isMeant
  have hkeys (p : String → Bool) :
      survey.registry.keys.find? p = (registeredIds scriptSetup sources).find? p := by
    rw [registry_secondPass scriptSetup issued sources done]
    exact find?_keys_firstPass ready_scriptSetup issued sources p
  have hfile : References.fileOf? survey name = (registeredIds scriptSetup sources).find? isMeant :=
    hkeys isMeant
  refine ⟨hfile, fun hregistered ↦ ?_, fun hplain ↦ ?_⟩
  · have hmem : path ∈ registeredIds scriptSetup sources := by
      have hfound : ((registeredIds scriptSetup sources).find? (· == path)).isSome = true := by
        rw [← hkeys, List.find?_isSome]
        exact ⟨path, hregistered, beq_self_eq_true path⟩
      obtain ⟨id, hid, heq⟩ := List.find?_isSome.1 hfound
      exact eq_of_beq heq ▸ hid
    rw [hfile]
    exact find?_eq_some_iff_takeWhile hmem
  · rw [hfile]
    refine find?_registeredIds ready_scriptSetup (fun id hid ↦ ?_) hplain
    rcases Bool.or_eq_true_iff.1 hid with hid | hid
    · exact eq_of_beq hid ▸ Text.endsWith_append _ _
    · rw [← String.append_assoc] at hid
      exact Text.endsWith_of_append hid

def modelsSource : Source := ⟨"models.py", "/p/models.py", .ok "x = 1\n"⟩

def otherModelsSource :
    Source := ⟨"lib/models.py", "/p/lib/models.py", .ok "def sell():\n    pass\n"⟩

/-- A file with the same name in a directory that is scanned before is taken for the one that is
named. -/
theorem other_file_imported :
    let survey := secondPass scriptSetup 0 [otherModelsSource, modelsSource] []
    "models.py" ∈ survey.registry.keys ∧ References.fileOf? survey "models" =
    some "lib/models.py" := by
  decide +kernel

example :
    References.fileOf? (secondPass scriptSetup 0 [modelsSource, otherModelsSource] []) "models" =
      some "models.py" := by
  decide +kernel

end Build

end CodeAtlas
