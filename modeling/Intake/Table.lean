/-! # Finite maps from names

A `Table` keeps its entries as a list in the order in which the names were first
set.  The view of a table is `Table.get?`; the lemmas

* `get?_set`     `(t.set k v).get? j = if j = k then some v else t.get? j`
* `get?_modify`  `(t.modify k f).get? j = if j = k then (t.get? j).map f else t.get? j`
* `get?_erase`   `(t.erase k).get? j = if j = k then none else t.get? j`

say what each operation does to it. -/

namespace Intake

/-- A finite map from names to values. -/
structure Table (α : Type) where
  entries : List (String × α)
deriving DecidableEq, Repr

namespace Table

variable {α : Type}

/-- The table without entries. -/
def empty : Table α := ⟨[]⟩

instance : Inhabited (Table α) := ⟨empty⟩

/-- The value under a name in a list of entries: the first entry counts. -/
def lookup (k : String) : List (String × α) → Option α
  | [] => none
  | (j, v) :: rest => if k = j then some v else lookup k rest

/-- Replace the entry of a name, or add one at the end. -/
def put (k : String) (v : α) : List (String × α) → List (String × α)
  | [] => [(k, v)]
  | (j, w) :: rest => if k = j then (j, v) :: rest else (j, w) :: put k v rest

/-- Change the entry of a name, if there is one. -/
def change (k : String) (f : α → α) : List (String × α) → List (String × α)
  | [] => []
  | (j, w) :: rest => if k = j then (j, f w) :: rest else (j, w) :: change k f rest

/-- The value under a name. -/
def get? (t : Table α) (k : String) : Option α := lookup k t.entries

/-- Whether a name has a value. -/
def contains (t : Table α) (k : String) : Bool := (t.get? k).isSome

/-- Give a name a value; a name that has one keeps its place. -/
def set (t : Table α) (k : String) (v : α) : Table α := ⟨put k v t.entries⟩

/-- Change the value of a name; a name without one stays without. -/
def modify (t : Table α) (k : String) (f : α → α) : Table α := ⟨change k f t.entries⟩

/-- Take a name out. -/
def erase (t : Table α) (k : String) : Table α := ⟨t.entries.filter (·.1 ≠ k)⟩

/-- The names, in the order in which they were first set. -/
def names (t : Table α) : List String := t.entries.map (·.1)

/-- Set the entries of a list, one after another: a later one wins. -/
def setAll (t : Table α) (es : List (String × α)) : Table α :=
  es.foldl (fun t e => t.set e.1 e.2) t

/-- The table of a list of entries; of two entries of one name the later wins. -/
def ofList (es : List (String × α)) : Table α := empty.setAll es

/-- Nothing is found in the empty table. -/
@[simp] theorem get?_empty (k : String) : (empty : Table α).get? k = none := rfl

/-- A value that was set is found under its name, and the others as before. -/
theorem get?_set (t : Table α) (k j : String) (v : α) :
    (t.set k v).get? j = if j = k then some v else t.get? j := by
  obtain ⟨es⟩ := t
  simp only [set, get?]
  induction es with
  | nil => simp only [put, lookup]
  | cons e rest ih =>
    obtain ⟨i, w⟩ := e
    simp only [put]
    split <;> rename_i hk
    · subst hk
      -- The value is put in the place of the one that was there.
      simp only [lookup]
      split <;> simp [*]
    · simp only [lookup, ih]
      split <;> rename_i hj
      · subst hj
        simp [Ne.symm hk]
      · rfl

/-- A value that was changed is found so under its name, and the others as before. -/
theorem get?_modify (t : Table α) (k j : String) (f : α → α) :
    (t.modify k f).get? j = if j = k then (t.get? j).map f else t.get? j := by
  obtain ⟨es⟩ := t
  simp only [modify, get?]
  induction es with
  | nil => simp [change, lookup]
  | cons e rest ih =>
    obtain ⟨i, w⟩ := e
    simp only [change]
    split <;> rename_i hk
    · subst hk
      -- The value that is changed is the first one.
      simp only [lookup]
      split <;> simp
    · simp only [lookup, ih]
      split <;> rename_i hj
      · subst hj
        simp [Ne.symm hk]
      · rfl

/-- What was erased is not found, and the others are found as before. -/
theorem get?_erase (t : Table α) (k j : String) :
    (t.erase k).get? j = if j = k then none else t.get? j := by
  obtain ⟨es⟩ := t
  simp only [erase, get?]
  induction es with
  | nil => simp [lookup]
  | cons e rest ih =>
    obtain ⟨i, w⟩ := e
    by_cases hi : i = k
    · subst hi
      simp only [ne_eq, not_true_eq_false, decide_false, List.filter_cons_of_neg,
        Bool.false_eq_true, not_false_eq_true, ih, lookup]
      split <;> simp_all
    · simp only [ne_eq, hi, not_false_eq_true, decide_true, List.filter_cons_of_pos, lookup, ih]
      by_cases hj : j = i
      · simp [hj, hi]
      · simp [hj]

end Table

/-- The texts of a list in ascending order of their characters. -/
def sortedTexts (l : List String) : List String :=
  l.mergeSort fun a b => !(b < a)

end Intake
