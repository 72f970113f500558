import Mathlib.Data.List.Infix
import Mathlib.Data.List.Nodup

/-!
# Fronts of a list

The front of a list that has so many elements with a property is where a search stops that goes
through the list until it has found so many.

- `frontWith`: the shortest front with so many elements that have a property
- `filter_frontWith`: these elements are the first ones of the list
- `subset_frontWith`: what stands before one of them is in the front
-/

namespace List

variable {α : Type*} {p : α → Bool} {n : Nat} {l : List α}

/-- The shortest front of a list in which so many elements have a property, or all of the list
    if there are fewer. -/
def frontWith (p : α → Bool) (n : Nat) (l : List α) : List α :=
  (l.inits.find? fun f => n ≤ f.countP p).getD l

/-- No elements are asked for. -/
@[simp] theorem frontWith_zero (p : α → Bool) (l : List α) : l.frontWith p 0 = [] := by
  cases l <;> simp [frontWith]

/-- The empty list is its only front. -/
@[simp] theorem frontWith_nil (p : α → Bool) (n : Nat) : [].frontWith p n = [] := by
  cases n <;> simp [frontWith]

/-- The first element is in the front, and counts if it has the property. -/
theorem frontWith_cons (p : α → Bool) (n : Nat) (a : α) (l : List α) :
    (a :: l).frontWith p (n + 1) = a :: l.frontWith p (if p a then n else n + 1) := by
  -- A prefix of the longer list has enough hits when its tail has enough for what is left.
  have hcount : (fun f => decide (n + 1 ≤ (a :: f).countP p)) =
      fun f => decide ((if p a then n else n + 1) ≤ f.countP p) := by
    funext f
    rw [countP_cons]
    split <;> simp
  rw [frontWith, inits_cons, find?_cons_of_neg (by simp), find?_map, Function.comp_def, hcount,
    frontWith]
  cases l.inits.find? _ <;> rfl

/-- The front of a list is a front of it. -/
private theorem frontWith_isPrefix (p : α → Bool) (n : Nat) (l : List α) :
    l.frontWith p n <+: l := by
  unfold frontWith
  cases hfind : l.inits.find? _ with
  | none => exact prefix_rfl
  | some f => exact (mem_inits f l).mp (mem_of_find?_eq_some hfind)

/-- The elements of the front that have the property are the first of the list. -/
theorem filter_frontWith (p : α → Bool) (n : Nat) (l : List α) :
    (l.frontWith p n).filter p = (l.filter p).take n := by
  induction l generalizing n with
  | nil => simp
  | cons a l ih =>
    cases n with
    | zero => simp
    | succ n =>
      rw [frontWith_cons, filter_cons, filter_cons, ih]
      split <;> rfl

/-- A list with too few elements that have the property is its own front. -/
theorem frontWith_of_countP_lt (h : l.countP p < n) : l.frontWith p n = l := by
  have hnone : l.inits.find? (fun f => n ≤ f.countP p) = none := by
    -- A prefix has at most as many hits as the list.
    refine find?_eq_none.mpr fun f hf => ?_
    have hle := ((mem_inits f l).mp hf).sublist.countP_le (p := p)
    simp only [decide_eq_true_eq]
    omega
  rw [frontWith, hnone, Option.getD_none]

/-- What stands before one of the first elements with the property is in the front. -/
theorem subset_frontWith {a : α} {before after : List α} (hl : (before ++ a :: after).Nodup)
    (ha : a ∈ ((before ++ a :: after).filter p).take n) :
    before ⊆ (before ++ a :: after).frontWith p n := by
  obtain ⟨rest, hrest⟩ := frontWith_isPrefix p n (before ++ a :: after)
  rw [← filter_frontWith] at ha
  have hfront := (mem_filter.mp ha).1
  generalize (before ++ a :: after).frontWith p n = front at hrest hfront
  -- The front is not so short that it ends before the element.
  have hnot : a ∉ before := fun hmem => by
    rw [nodup_append] at hl
    exact hl.2.2 a hmem a mem_cons_self rfl
  rcases append_eq_append_iff.mp hrest with ⟨more, rfl, -⟩ | ⟨more, rfl, -⟩
  · exact absurd (mem_append_left more hfront) hnot
  · exact subset_append_left before more

end List
