
/-!
# Tables in insertion order

A table is a list of keyed entries. Writing under a key that is already there keeps the entry's
place and replaces its value; any other key goes to the end. The order of a table is therefore the
order in which its keys were first written.
-/

namespace CodeAtlas

/-- Keyed entries in the order in which their keys were first written. -/
abbrev Table (κ : Type) (β : Type) := List (κ × β)

namespace Table

variable {κ β γ : Type} [DecidableEq κ]

def get? : Table κ β → κ → Option β
  | [], _ => none
  | (k, v) :: rest, key => if k = key then some v else get? rest key

def contains (t : Table κ β) (key : κ) : Bool := (t.get? key).isSome

def put : Table κ β → κ → β → Table κ β
  | [], key, value => [(key, value)]
  | (k, v) :: rest, key, value =>
    if k = key then (k, value) :: rest else (k, v) :: put rest key value

def erase : Table κ β → κ → Table κ β
  | [], _ => []
  | (k, v) :: rest, key => if k = key then erase rest key else (k, v) :: erase rest key

def keys (t : Table κ β) : List κ := t.map Prod.fst

def values (t : Table κ β) : List β := t.map Prod.snd

/-- The table that results from writing the entries one after the other. -/
def ofList (entries : List (κ × β)) : Table κ β :=
  entries.foldl (fun t e ↦ t.put e.1 e.2) []

def merge (t u : Table κ β) : Table κ β := u.foldl (fun acc e ↦ acc.put e.1 e.2) t

def push (t : Table κ (List β)) (key : κ) (item : β) : Table κ (List β) :=
  t.put key ((t.get? key).getD [] ++ [item])

@[simp]
theorem get?_put_self (t : Table κ β) (key : κ) (value : β) : (t.put key value).get? key = some value := by
  induction t with
  | nil => simp [put, get?]
  | cons e rest ih =>
    obtain ⟨k, v⟩ := e
    by_cases h : k = key <;> simp [put, get?, h, ih]

theorem get?_put_of_ne {t : Table κ β} {key other : κ} {value : β} (h : other ≠ key) :
    (t.put key value).get? other = t.get? other := by
  induction t with
  | nil => simp [put, get?, Ne.symm h]
  | cons e rest ih =>
    obtain ⟨k, v⟩ := e
    by_cases hk : k = key
    · subst hk
      simp [put, get?, Ne.symm h]
    · simp [put, get?, hk, ih]

end Table

end CodeAtlas
