import CodeAtlas.Json.Access
import CodeAtlas.Proofs.Fallible
import CodeAtlas.Proofs.TableLaws

/-!
# Laws of documents

When looking into a document succeeds and with what. Members can be asked of objects only, and
writing one member leaves the others as they are.
-/

namespace CodeAtlas.Json

open Fallible Json

variable {s name : String} {v w : Json}

def IsObject (v : Json) : Prop := ∃ m, v = .obj m

@[simp]
lemma member?_obj (m : List (String × Json)) (name : String) :
    (obj m).member? name = Table.get? m name := rfl

lemma isObject_of_member? (h : v.member? name = some w) : v.IsObject := by
  cases v with
  | obj m => exact ⟨m, rfl⟩
  | _ => simp [member?, members] at h

lemma truthy_of_member? (h : v.member? name = some w) : v.truthy = true := by
  obtain ⟨m, rfl⟩ := isObject_of_member? h
  cases m with
  | nil => simp at h
  | cons e rest => rfl

lemma getD_eq_ok {d : Json} : v.getD name d = .ok w ↔ v.IsObject ∧ (v.member? name).getD d = w := by
  cases v <;> simp [getD, IsObject]

lemma get_eq_ok : v.get name = .ok w ↔ v.IsObject ∧ (v.member? name).getD .null = w := getD_eq_ok

lemma getD_of_member? (h : v.member? name = some w) (d : Json) : v.getD name d = .ok w := by
  rw [getD_eq_ok, h]
  exact ⟨isObject_of_member? h, rfl⟩

lemma get_of_member? (h : v.member? name = some w) : v.get name = .ok w := getD_of_member? h .null

lemma need_eq_ok : v.need name = .ok w ↔ v.member? name = some w := by
  cases v with
  | obj m =>
    rw [need, member?_obj]
    cases Table.get? m name <;> simp
  | _ => simp [need, member?, members]

lemma holds_eq (h : v.IsObject) (name : String) : v.holds name = .ok (v.member? name).isSome := by
  obtain ⟨m, rfl⟩ := h
  rfl

lemma member?_of_holds (h : v.holds name = .ok false) : v.member? name = none := by
  cases v with
  | obj m => simpa [Table.contains] using Except.ok.inj h
  | _ => rfl

lemma members_of_ok {word : String} {m : List (String × Json)} (h : v.membersBy word = .ok m) :
    v.members = m := by
  cases v with
  | obj => exact Except.ok.inj h
  | _ => cases h

lemma key_eq_ok {k : Key} : v.key = .ok k ↔ v.key? = some k := by
  rw [key]
  cases v.key? <;> simp

@[simp]
lemma key?_str (s : String) : (str s).key? = some (.str s) := rfl

lemma key_str (s : String) : (str s).key = .ok (.str s) := rfl

lemma key?_eq_str : v.key? = some (.str s) ↔ v = .str s := by
  cases v with
  | str t => simp [key?]
  | float x =>
    rw [key?]
    cases x.toInt? <;> simp
  | _ => simp [key?]

lemma same_str : v.same s = true ↔ v = .str s := by
  cases v <;> simp [same]

lemma str_same : (str s).same v = true ↔ v = .str s := by
  cases v with
  | str t => rw [same, beq_iff_eq, str.injEq, eq_comm]
  | _ => simp [same]

lemma alike_iff : v.alike w = true ↔ v.same w = true ∨ v = w := by
  simp [alike]

lemma alike_str : v.alike s = true ↔ v = .str s := by
  simp [alike_iff, same_str]

lemma truthy_str : (str s).truthy = true ↔ s ≠ "" := by
  simp [truthy]

lemma size_of_elements {items : List Json} (h : v.elements = .ok items) :
    v.size = .ok items.length := by
  cases v with
  | arr xs => rw [← Except.ok.inj h]; rfl
  | obj m => rw [← Except.ok.inj h, List.length_map]; rfl
  | str s => rw [← Except.ok.inj h, List.length_map, String.length_toList]; rfl
  | _ => cases h

lemma isObject_setMember (h : v.IsObject) (name : String) (w : Json) :
    (v.setMember name w).IsObject := by
  obtain ⟨m, rfl⟩ := h
  exact ⟨_, rfl⟩

lemma member?_setMember (h : v.IsObject) (name other : String) (w : Json) :
    (v.setMember name w).member? other = if other = name then some w else v.member? other := by
  obtain ⟨m, rfl⟩ := h
  simp only [setMember, member?_obj, Table.get?_put]

lemma orElse_of_truthy (h : v.truthy = true) (w : Json) : v.orElse w = v := by
  rw [orElse, if_pos h]

lemma orElse_of_not_truthy (h : v.truthy = false) (w : Json) : v.orElse w = w := by
  rw [orElse, h]
  rfl

end CodeAtlas.Json
