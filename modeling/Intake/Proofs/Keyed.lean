import Mathlib.Data.List.Nodup

/-!
# Lists whose entries have keys

A list in which no two entries have the same key is a finite map that keeps an
order.  The lemmas say what finding, changing and removing the entry of a key do
to it.

- `find?_key`: looking for the key of an entry finds the entry
- `find?_change`, `find?_remove`: what is found after an entry was changed or removed
- `map_change_eq_set`, `filter_remove_eq_eraseIdx`: the entry of a key has a place
- `countP_change`: changing one entry changes a count by that entry alone
- `countP_remove`: removing one entry lowers a count by that entry alone
- `perm_append_filter`: two lists make up for what each of them has alone
- `countP_le_one`: at most one entry has a property that only one key has
-/

namespace List

variable {α κ : Type*} [DecidableEq κ] {key : α → κ}

variable (key) in
/-- Looking for the key of an entry finds the entry. -/
theorem find?_key {l : List α} (hn : (l.map key).Nodup) {x : α} (hx : x ∈ l) :
    l.find? (fun y => key y = key x) = some x := by
  induction l with
  | nil => simp at hx
  | cons y ys ih =>
    rw [map_cons, nodup_cons] at hn
    rw [find?_cons]
    rcases mem_cons.mp hx with rfl | hx
    · simp
    -- The first entry has another key, so the search goes past it.
    · have hne : key y ≠ key x := fun he => hn.1 (he ▸ mem_map_of_mem hx)
      simp [hne, ih hn.2 hx]

/-- What is found under a key is an entry with that key. -/
theorem mem_of_find?_key {l : List α} {k : κ} {x : α}
    (h : l.find? (fun y => key y = k) = some x) : x ∈ l ∧ key x = k :=
  ⟨mem_of_find?_eq_some h, by simpa using find?_some h⟩

variable (key) in
omit [DecidableEq κ] in
/-- Two entries with one key are one entry. -/
theorem eq_of_key_eq {l : List α} (hn : (l.map key).Nodup) {x y : α} (hx : x ∈ l) (hy : y ∈ l)
    (h : key x = key y) : x = y :=
  inj_on_of_nodup_map hn hx hy h

/-- A change that keeps the keys keeps them in their order. -/
theorem map_key_change {l : List α} {k : κ} {f : α → α} (hf : ∀ x, key (f x) = key x) :
    (l.map fun x => if key x = k then f x else x).map key = l.map key := by
  rw [map_map]
  refine map_congr_left fun x _ => ?_
  simp only [Function.comp_apply]
  split
  · exact hf x
  · rfl

/-- A change of the entry of a key that is not there changes nothing. -/
theorem map_change_of_not_mem {l : List α} {k : κ} (hk : k ∉ l.map key) (f : α → α) :
    (l.map fun x => if key x = k then f x else x) = l := by
  refine (map_congr_left fun x hx => ?_).trans (map_id l)
  have hne : key x ≠ k := fun he => hk (he ▸ mem_map_of_mem hx)
  simp [hne]

/-- Where there is no entry of a key, none is removed. -/
theorem filter_remove_of_not_mem {l : List α} {k : κ} (hk : k ∉ l.map key) :
    (l.filter fun x => key x ≠ k) = l := by
  refine filter_eq_self.mpr fun x hx => ?_
  have hne : key x ≠ k := fun he => hk (he ▸ mem_map_of_mem hx)
  simpa using hne

variable (key) in
/-- Changing the entry of a key is putting another one in its place. -/
theorem map_change_eq_set {l : List α} (hn : (l.map key).Nodup) {i : Nat} {x : α}
    (hx : l[i]? = some x) (f : α → α) :
    (l.map fun y => if key y = key x then f y else y) = l.set i (f x) := by
  induction l generalizing i with
  | nil => simp at hx
  | cons y ys ih =>
    rw [map_cons, nodup_cons] at hn
    cases i with
    -- The entry is the first one; its key comes only once.
    | zero =>
      obtain rfl : y = x := by simpa using hx
      simp [map_change_of_not_mem hn.1]
    | succ i =>
      have hx' : ys[i]? = some x := by simpa using hx
      have hne : key y ≠ key x := fun he => hn.1 (he ▸ mem_map_of_mem (mem_of_getElem? hx'))
      simp [hne, ih hn.2 hx']

variable (key) in
/-- Removing the entry of a key is removing the entry in its place. -/
theorem filter_remove_eq_eraseIdx {l : List α} (hn : (l.map key).Nodup) {i : Nat} {x : α}
    (hx : l[i]? = some x) : (l.filter fun y => key y ≠ key x) = l.eraseIdx i := by
  induction l generalizing i with
  | nil => simp at hx
  | cons y ys ih =>
    rw [map_cons, nodup_cons] at hn
    cases i with
    -- The entry is the first one, and no other has its key.
    | zero =>
      obtain rfl : y = x := by simpa using hx
      rw [filter_cons_of_neg (by simp), filter_remove_of_not_mem hn.1, eraseIdx_cons_zero]
    | succ i =>
      have hx' : ys[i]? = some x := by simpa using hx
      have hne : key y ≠ key x := fun he => hn.1 (he ▸ mem_map_of_mem (mem_of_getElem? hx'))
      rw [filter_cons_of_pos (by simpa using hne), ih hn.2 hx', eraseIdx_cons_succ]

variable (key) in
/-- After a change of the entry of a key that keeps the keys, the other entries are found as
    they were. -/
theorem find?_change {k : κ} {f : α → α} (hf : ∀ x, key (f x) = key x) (l : List α) (j : κ) :
    (l.map fun x => if key x = k then f x else x).find? (fun x => key x = j) =
      (l.find? fun x => key x = j).map fun x => if k = j then f x else x := by
  induction l with
  | nil => rfl
  | cons y ys ih =>
    -- The search stops at the same entries before and after the change.
    have hkey : key (if key y = k then f y else y) = key y := by
      split
      · exact hf y
      · rfl
    rw [map_cons, find?_cons, find?_cons, hkey]
    by_cases hj : key y = j
    · simp [hj, eq_comm (a := k)]
    · simpa [hj] using ih

/-- After the entry of a key was removed, the other entries are found as they were. -/
theorem find?_remove (l : List α) (k j : κ) :
    (l.filter fun x => key x ≠ k).find? (fun x => key x = j) =
      if k = j then none else l.find? fun x => key x = j := by
  induction l with
  | nil => simp
  | cons y ys ih =>
    by_cases hy : key y = k
    -- The entry goes: it could be found under its own key only.
    · rw [filter_cons_of_neg (by simpa using hy), ih, find?_cons, hy]
      by_cases hj : k = j <;> simp [hj]
    · rw [filter_cons_of_pos (by simpa using hy), find?_cons, find?_cons, ih]
      by_cases hj : key y = j
      · have hne : k ≠ j := fun h => hy (hj.trans h.symm)
        simp [hj, hne]
      · simp [hj]

/-- Changing the entry of a key changes a count by that entry alone. -/
theorem countP_change {l : List α} (hn : (l.map key).Nodup) {x : α} (hx : x ∈ l) (f : α → α)
    (P : α → Bool) :
    (l.map fun y => if key y = key x then f y else y).countP P + (if P x then 1 else 0) =
      l.countP P + if P (f x) then 1 else 0 := by
  induction l with
  | nil => simp at hx
  | cons y ys ih =>
    rw [map_cons, nodup_cons] at hn
    rw [map_cons, countP_cons, countP_cons]
    rcases mem_cons.mp hx with rfl | hx
    -- The other entries have other keys.
    · rw [map_change_of_not_mem hn.1, if_pos rfl]
      omega
    -- The first entry stays and counts on both sides.
    · have hne : key y ≠ key x := fun he => hn.1 (he ▸ mem_map_of_mem hx)
      rw [if_neg hne]
      have := ih hn.2 hx
      omega

/-- Changing the entry of a key to one that counts alike changes no count. -/
theorem countP_change_eq {l : List α} {k : κ} {f : α → α} {P : α → Bool}
    (hf : ∀ x ∈ l, key x = k → P (f x) = P x) :
    (l.map fun x => if key x = k then f x else x).countP P = l.countP P := by
  rw [countP_map]
  refine countP_congr fun x hx => ?_
  simp only [Function.comp_apply]
  split <;> rename_i hk
  · rw [hf x hx hk]
  · rfl

/-- Removing the entry of a key lowers a count by that entry alone. -/
theorem countP_remove {l : List α} (hn : (l.map key).Nodup) {x : α} (hx : x ∈ l) (P : α → Bool) :
    (l.filter fun y => key y ≠ key x).countP P + (if P x then 1 else 0) = l.countP P := by
  induction l with
  | nil => simp at hx
  | cons y ys ih =>
    rw [map_cons, nodup_cons] at hn
    rw [countP_cons]
    rcases mem_cons.mp hx with rfl | hx
    -- The other entries have other keys.
    · rw [filter_cons_of_neg (by simp), filter_remove_of_not_mem hn.1]
    · have hne : key y ≠ key x := fun he => hn.1 (he ▸ mem_map_of_mem hx)
      rw [filter_cons_of_pos (by simpa using hne), countP_cons]
      have := ih hn.2 hx
      omega

/-- Removing the entry of a key removes one entry. -/
theorem length_remove {l : List α} (hn : (l.map key).Nodup) {x : α} (hx : x ∈ l) :
    (l.filter fun y => key y ≠ key x).length + 1 = l.length := by
  simpa only [if_true, countP_true] using countP_remove hn hx fun _ => true

/-- The entry that goes when the entry of a key is removed. -/
theorem filter_not_mem_remove [DecidableEq α] {l : List α} (hn : (l.map key).Nodup) {x : α}
    (hx : x ∈ l) : l.filter (· ∉ l.filter fun y => key y ≠ key x) = [x] := by
  -- An element is gone iff it is the removed one, since it is known by its key.
  have hgone : ∀ y ∈ l, decide (y ∉ l.filter fun z => key z ≠ key x) = (y == x) := by
    intro y hy
    have hiff : y ∉ l.filter (fun z => key z ≠ key x) ↔ y = x := by
      simp only [mem_filter, hy, true_and, decide_eq_true_eq, not_not]
      exact ⟨fun he => eq_of_key_eq key hn hy hx he, fun he => he ▸ rfl⟩
    rw [decide_eq_decide.mpr hiff]
    rfl
  rw [filter_congr hgone, filter_beq, count_eq_one_of_mem hn.of_map hx]
  rfl

omit [DecidableEq κ] in
/-- Two lists without duplicates, each with what the other one has and it has not. -/
theorem perm_append_filter [DecidableEq α] {l l' : List α} (hl : l.Nodup) (hl' : l'.Nodup) :
    (l ++ l'.filter (· ∉ l)).Perm (l.filter (· ∉ l') ++ l') := by
  apply (perm_ext_iff_of_nodup ?_ ?_).mpr
  · intro x
    by_cases hx : x ∈ l <;> by_cases hx' : x ∈ l' <;> simp [hx, hx']
  · exact hl.append (hl'.filter _) fun x hx hx' => by simp_all
  · exact (hl.filter _).append hl' fun x hx hx' => by simp_all

/-- What is found first and the rest. -/
theorem perm_cons_eraseP {l : List α} {P : α → Bool} {x : α} (h : l.find? P = some x) :
    (x :: l.eraseP P).Perm l := by
  -- The list is cut where the entry is found.
  obtain ⟨hx, before, rest, rfl, hbefore⟩ := find?_eq_some_iff_append.mp h
  have hnot : ∀ y ∈ before, ¬ P y := by simpa using hbefore
  rw [eraseP_append_right _ hnot, eraseP_cons_of_pos hx]
  exact perm_middle.symm

omit [DecidableEq κ] in
/-- At most one entry has a property that only one key has. -/
theorem countP_le_one {l : List α} (hn : (l.map key).Nodup) {P : α → Bool}
    (hP : ∀ x ∈ l, ∀ y ∈ l, P x → P y → key x = key y) : l.countP P ≤ 1 := by
  induction l with
  | nil => exact Nat.zero_le 1
  | cons x xs ih =>
    rw [map_cons, nodup_cons] at hn
    rw [countP_cons]
    split
    next hx =>
      -- The first entry has the property, so the others have it not.
      have hnone : xs.countP P = 0 := by
        rw [countP_eq_zero]
        intro y hy hPy
        have hkey := hP x mem_cons_self y (mem_cons_of_mem x hy) hx hPy
        exact hn.1 (hkey ▸ mem_map_of_mem hy)
      omega
    next =>
      exact ih hn.2 fun y hy z hz => hP y (mem_cons_of_mem x hy) z (mem_cons_of_mem x hz)

end List
