import Intake.Table
import Mathlib.Data.List.Nodup
import Mathlib.Data.List.Perm.Basic

/-!
# What the entries of a table hold together

Setting and changing entries keeps the names unambiguous, and exchanges what one entry
holds for something else.

- `nodup_set`: the names stay unambiguous
- `get?_setAll`: what is found after the entries of a list were set
- `mem_entries_iff`: the entries are what is found under the names
- `flatMap_set`: what all entries hold, after one of them was set
-/

namespace Intake.Table

variable {α β : Type} {t : Table α} {k : String} {v w : α}

/-! ## Names -/

/-- A value under a name that is there leaves the names as they are. -/
private theorem names_put_of_some {es : List (String × α)} (h : lookup k es = some v) (w : α) :
    (put k w es).map (·.1) = es.map (·.1) := by
  -- Along the entries, up to the one that is replaced.
  induction es with
  | nil => cases h
  | cons e es ih =>
    obtain ⟨j, u⟩ := e
    unfold lookup at h
    unfold put
    split
    · rfl
    next hk =>
      rw [if_neg hk] at h
      rw [List.map_cons, List.map_cons, ih h]

/-- A value under a new name comes last. -/
private theorem put_of_none {es : List (String × α)} (h : lookup k es = none) (w : α) :
    put k w es = es ++ [(k, w)] := by
  induction es with
  | nil => rfl
  | cons e es ih =>
    obtain ⟨j, u⟩ := e
    unfold lookup at h
    split at h
    · cases h
    next hk => rw [put, if_neg hk, ih h, List.cons_append]

/-- Where nothing is found, the name is not there. -/
private theorem not_mem_names_of_none {es : List (String × α)} (h : lookup k es = none) :
    k ∉ es.map (·.1) := by
  induction es with
  | nil => simp
  | cons e es ih =>
    obtain ⟨j, u⟩ := e
    unfold lookup at h
    split at h
    · cases h
    next hk => simpa [hk] using ih h

/-- A name that is not there is not found. -/
theorem lookup_of_not_mem_names {es : List (String × α)} (h : k ∉ es.map (·.1)) :
    lookup k es = none := by
  induction es with
  | nil => rfl
  | cons e es ih =>
    obtain ⟨j, u⟩ := e
    rw [List.map_cons, List.mem_cons, not_or] at h
    rw [lookup, if_neg h.1, ih h.2]

/-- Setting a value keeps the names unambiguous. -/
theorem nodup_set (h : t.names.Nodup) (k : String) (w : α) : (t.set k w).names.Nodup := by
  cases hk : lookup k t.entries with
  | some v =>
    rw [names, set, names_put_of_some hk]
    exact h
  | none =>
    -- A name without a value stands nowhere yet.
    rw [names, set, put_of_none hk, List.map_append, List.nodup_append]
    refine ⟨h, List.nodup_singleton _, fun a ha b hb hab => ?_⟩
    rw [hab, List.mem_singleton.mp hb] at ha
    exact not_mem_names_of_none hk ha

/-- Changing a value is setting the changed one. -/
theorem modify_of_some (h : t.get? k = some v) (f : α → α) : t.modify k f = t.set k (f v) := by
  obtain ⟨es⟩ := t
  simp only [modify, set, get?] at h ⊢
  induction es with
  | nil => cases h
  | cons e es ih =>
    obtain ⟨j, u⟩ := e
    unfold lookup at h
    unfold change put
    split at h
    -- The entry of the name is the first one.
    next hk =>
      cases h
      rw [if_pos hk, if_pos hk]
    next hk =>
      have hes := ih h
      simp only [Table.mk.injEq] at hes
      rw [if_neg hk, if_neg hk, hes]

/-- Where there is no value, none is changed. -/
theorem modify_of_none (h : t.get? k = none) (f : α → α) : t.modify k f = t := by
  obtain ⟨es⟩ := t
  simp only [modify, get?] at h ⊢
  induction es with
  | nil => rfl
  | cons e es ih =>
    obtain ⟨j, u⟩ := e
    unfold lookup at h
    unfold change
    split at h
    · cases h
    -- No entry has the name, the first one neither.
    next hk =>
      have hes := ih h
      simp only [Table.mk.injEq] at hes
      rw [if_neg hk, hes]

/-- A name that has a value keeps having one. -/
theorem isSome_get?_set {j : String} (h : (t.get? j).isSome) (k : String) (w : α) :
    ((t.set k w).get? j).isSome := by
  rw [get?_set]
  split
  · rfl
  · exact h

/-- Changing a value leaves all names in the table. -/
theorem isSome_get?_modify {j : String} (h : (t.get? j).isSome) (k : String) (f : α → α) :
    ((t.modify k f).get? j).isSome := by
  rw [get?_modify]
  split
  · rwa [Option.isSome_map]
  · exact h

/-- After setting the entries of a list without repeated names, a name has the value of its
    entry, and else the value it had. -/
theorem get?_setAll {es : List (String × α)} (h : (es.map (·.1)).Nodup) (t : Table α)
    (k : String) : (t.setAll es).get? k = (lookup k es).or (t.get? k) := by
  induction es generalizing t with
  | nil => rfl
  | cons e es ih =>
    obtain ⟨j, u⟩ := e
    rw [List.map_cons, List.nodup_cons] at h
    have hrest : (t.setAll ((j, u) :: es)).get? k = (lookup k es).or ((t.set j u).get? k) :=
      ih h.2 (t.set j u)
    rw [hrest, get?_set, lookup]
    by_cases hk : k = j
    · -- No later entry has the name of the first one.
      rw [if_pos hk, if_pos hk, lookup_of_not_mem_names (hk ▸ h.1)]
      rfl
    · rw [if_neg hk, if_neg hk]

/-! ## Entries -/

/-- The entries of a table are what is found under its names. -/
theorem mem_entries_iff (h : t.names.Nodup) : (k, v) ∈ t.entries ↔ t.get? k = some v := by
  obtain ⟨es⟩ := t
  simp only [names, get?] at h ⊢
  induction es with
  | nil => simp [lookup]
  | cons e es ih =>
    obtain ⟨j, u⟩ := e
    rw [List.map_cons, List.nodup_cons] at h
    rw [List.mem_cons, lookup]
    split
    -- The name of the first entry stands nowhere else.
    next hk =>
      subst hk
      constructor
      · rintro (he | he)
        · cases he
          rfl
        · exact absurd (List.mem_map_of_mem (f := Prod.fst) he) h.1
      · intro he
        cases he
        exact .inl rfl
    next hk =>
      rw [← ih h.2]
      constructor
      · rintro (he | he)
        · cases he
          exact absurd rfl hk
        · exact he
      · exact .inr

/-- What all entries hold after one of them was set: the new in exchange for the old. -/
theorem flatMap_set (h : t.get? k = some v) (w : α) (g : α → List β) :
    ((t.set k w).entries.flatMap (fun e => g e.2) ++ g v).Perm
      (t.entries.flatMap (fun e => g e.2) ++ g w) := by
  obtain ⟨es⟩ := t
  simp only [set, get?] at h ⊢
  induction es with
  | nil => cases h
  | cons e es ih =>
    obtain ⟨j, u⟩ := e
    unfold lookup at h
    unfold put
    split at h
    next hk =>
      cases h
      rw [if_pos hk, List.flatMap_cons, List.flatMap_cons, List.append_assoc, List.append_assoc]
      -- The old and the new change places around the rest.
      generalize es.flatMap (fun e => g e.2) = rest
      have hback : (g w ++ rest).Perm (rest ++ g w) := List.perm_append_comm
      have hrest : (rest ++ g v).Perm (g v ++ rest) := List.perm_append_comm
      exact (hrest.append_left _).trans ((List.perm_append_comm_assoc ..).trans
        (hback.append_left _))
    next hk =>
      rw [if_neg hk, List.flatMap_cons, List.flatMap_cons, List.append_assoc, List.append_assoc]
      exact (ih h).append_left _

/-- What all entries hold after a new one was set. -/
theorem flatMap_set_of_none (h : t.get? k = none) (w : α) (g : α → List β) :
    (t.set k w).entries.flatMap (fun e => g e.2) =
      t.entries.flatMap (fun e => g e.2) ++ g w := by
  simp only [set]
  rw [put_of_none h, List.flatMap_append, List.flatMap_singleton]

end Intake.Table
