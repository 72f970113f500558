import Mathlib.Data.List.Induction

/-!
# Runs of a machine

A machine is fed one input after another.  The state after a run is a fold over the inputs;
`noted` keeps a note of every step, made from the state before it.

- `exists_cut_of_noted`: where the notes of a run are cut, the run is cut
- `foldl_keeps`: what holds at first and is kept by every step holds after every run
- `Since`: something was noted, and nothing that would have ended it since
- `Until`: something goes on until something else happens
-/

namespace Intake

variable {σ ι ν : Type} {next : σ → ι → σ} {note : σ → ι → ν}

/-- The notes of the steps that a sequence of inputs leads to. -/
def noted (next : σ → ι → σ) (note : σ → ι → ν) (s : σ) : List ι → List ν
  | [] => []
  | x :: xs => note s x :: noted next note (next s x) xs

/-- The notes of a run that goes on come after those that it has made. -/
theorem noted_append (next : σ → ι → σ) (note : σ → ι → ν) (s : σ) (xs ys : List ι) :
    noted next note s (xs ++ ys) = noted next note s xs ++ noted next note (xs.foldl next s) ys := by
  induction xs generalizing s with
  | nil => rfl
  | cons x xs ih => exact congrArg (_ :: ·) (ih _)

/-- Where the notes of a run are cut, the run is cut, and goes on from there. -/
theorem exists_cut_of_noted {s : σ} {xs : List ι} {before later : List ν} {n : ν}
    (h : noted next note s xs = before ++ n :: later) :
    ∃ ys x zs, xs = ys ++ x :: zs ∧ before = noted next note s ys ∧
      n = note (ys.foldl next s) x ∧ later = noted next note (next (ys.foldl next s) x) zs := by
  -- The notes before the cut are taken off one by one, each with its input.
  induction before generalizing s xs with
  | nil =>
    cases xs with
    | nil => cases h
    | cons x xs =>
      obtain ⟨hn, hlater⟩ := List.cons.inj h
      exact ⟨[], x, xs, rfl, rfl, hn.symm, hlater.symm⟩
  | cons m before ih =>
    cases xs with
    | nil => cases h
    | cons x xs =>
      obtain ⟨hm, hrest⟩ := List.cons.inj h
      obtain ⟨ys, y, zs, rfl, hbefore, hn, hlater⟩ := ih hrest
      exact ⟨x :: ys, y, zs, rfl, by rw [hbefore, ← hm]; rfl, hn, hlater⟩

/-- Where the notes of a run are cut, the run is cut. -/
theorem noted_eq_append_cons {s : σ} {xs : List ι} {before later : List ν} {n : ν}
    (h : noted next note s xs = before ++ n :: later) :
    ∃ ys x, before = noted next note s ys ∧ n = note (ys.foldl next s) x := by
  obtain ⟨ys, x, -, -, hbefore, hn, -⟩ := exists_cut_of_noted h
  exact ⟨ys, x, hbefore, hn⟩

/-- What holds at first and is kept by every step holds after every run.  The property may
    look back at the notes so far. -/
theorem foldl_keeps {P : List ν → σ → Prop} {s : σ} (h0 : P [] s) (xs : List ι)
    (hstep : ∀ hist t, ∀ x ∈ xs, P hist t → P (hist ++ [note t x]) (next t x)) :
    P (noted next note s xs) (xs.foldl next s) := by
  induction xs using List.reverseRecOn with
  | nil => exact h0
  | append_singleton xs x ih =>
    rw [noted_append, List.foldl_append]
    -- The last step follows a run that keeps it by induction.
    have hxs := ih fun hist t y hy => hstep hist t y (List.mem_append_left _ hy)
    exact hstep _ _ x (List.mem_append_right _ List.mem_cons_self) hxs

/-- What is found among some notes is found there for a first time. -/
theorem exists_first {P : ν → Prop} {hist : List ν} {x : ν} (hx : x ∈ hist) (hP : P x) :
    ∃ before y later, hist = before ++ y :: later ∧ P y ∧ ∀ z ∈ before, ¬ P z := by
  induction hist with
  | nil => cases hx
  | cons w hist ih =>
    -- The head is the first one, or the first one is in the tail.
    by_cases hw : P w
    · exact ⟨[], w, hist, rfl, hw, nofun⟩
    · have hne : x ≠ w := fun he => hw (he ▸ hP)
      obtain ⟨before, y, later, rfl, hy, hnone⟩ := ih ((List.mem_cons.mp hx).resolve_left hne)
      exact ⟨w :: before, y, later, rfl, hy, List.forall_mem_cons.mpr ⟨hw, hnone⟩⟩

/-! ## What was noted last -/

section Since

variable {hist before later : List ν} {x y z : ν} {P Q : ν → Prop}

/-- Where notes to which one was added are cut, they are cut at the new one or at an old one. -/
theorem cut_append (h : hist ++ [z] = before ++ x :: later) :
    (before = hist ∧ x = z ∧ later = []) ∨
      ∃ later', later = later' ++ [z] ∧ hist = before ++ x :: later' := by
  -- The cut is at the last element, or before it.
  rcases List.eq_nil_or_concat later with rfl | ⟨later', y, rfl⟩
  · obtain ⟨hhist, hz⟩ := List.append_inj' h rfl
    exact .inl ⟨hhist.symm, (List.cons.inj hz).1.symm, rfl⟩
  · rw [List.concat_eq_append, ← List.cons_append, ← List.append_assoc] at h
    obtain ⟨hhist, hz⟩ := List.append_inj' h rfl
    exact .inr ⟨later', by rw [List.concat_eq_append, (List.cons.inj hz).1], hhist⟩

/-- Where notes with one before them are cut between two of them, the notes are cut. -/
theorem cut_cons (h : x :: hist = before ++ z :: y :: later) :
    ∃ before', before ++ [z] = x :: before' ∧ hist = before' ++ y :: later := by
  cases before with
  | nil =>
    obtain ⟨rfl, rfl⟩ := List.cons.inj h
    exact ⟨[], rfl, rfl⟩
  | cons w before =>
    obtain ⟨rfl, rfl⟩ := List.cons.inj h
    exact ⟨before ++ [z], rfl, by simp⟩

/-- A note of one kind was made, and among those since then there is none of another kind. -/
def Since (P Q : ν → Prop) (hist later : List ν) : Prop :=
  ∃ before x, hist = before ++ x :: later ∧ P x ∧ ∀ y ∈ later, ¬ Q y

/-- What was noted last is the new note, or it was noted last before and the new note does not end
    it. -/
theorem since_append : Since P Q (hist ++ [z]) later ↔
    (P z ∧ later = []) ∨ (¬ Q z ∧ ∃ later', Since P Q hist later' ∧ later = later' ++ [z]) := by
  constructor
  · rintro ⟨before, x, hcut, hx, hlater⟩
    -- The note may be the new one or an old one.
    rcases cut_append hcut with ⟨rfl, rfl, rfl⟩ | ⟨later', rfl, rfl⟩
    · exact .inl ⟨hx, rfl⟩
    · refine .inr ⟨hlater z (List.mem_append_right _ List.mem_cons_self), later', ?_, rfl⟩
      exact ⟨before, x, rfl, hx, fun y hy => hlater y (List.mem_append_left _ hy)⟩
  · rintro (⟨hz, rfl⟩ | ⟨hz, later', ⟨before, x, rfl, hx, hlater⟩, rfl⟩)
    · exact ⟨hist, z, rfl, hz, fun y hy => by cases hy⟩
    · refine ⟨before, x, by rw [List.append_assoc, List.cons_append], hx, fun y hy => ?_⟩
      rcases List.mem_append.mp hy with hy | hy
      · exact hlater y hy
      · exact List.mem_singleton.mp hy ▸ hz

/-- Nothing was noted before anything was noted. -/
theorem not_since_nil : ¬ Since P Q [] later := by
  rintro ⟨before, x, hcut, -⟩
  simp at hcut

/-- One thing is so at each note up to the first one at which another is so. -/
def Until (P Q : ν → Prop) : List ν → Prop
  | [] => True
  | x :: hist => P x ∧ (Q x ∨ Until P Q hist)

/-- What goes on until something happens goes on in a weaker form until something weaker happens. -/
theorem Until.imp {P' Q' : ν → Prop} (h : Until P Q hist) (hP : ∀ x ∈ hist, P x → P' x)
    (hQ : ∀ x ∈ hist, Q x → Q' x) : Until P' Q' hist := by
  induction hist with
  | nil => trivial
  | cons x hist ih =>
    refine ⟨hP x List.mem_cons_self h.1, h.2.imp (hQ x List.mem_cons_self) fun h => ?_⟩
    exact ih h (fun y hy => hP y (List.mem_cons_of_mem x hy))
      fun y hy => hQ y (List.mem_cons_of_mem x hy)

/-- At a note before which the other thing has not happened the one thing is so. -/
theorem Until.of_cut (h : Until P Q (before ++ x :: later)) (hbefore : ∀ y ∈ before, ¬ Q y) :
    P x := by
  induction before with
  | nil => exact h.1
  | cons y before ih =>
    have hrest := h.2.resolve_left (hbefore y List.mem_cons_self)
    exact ih hrest fun z hz => hbefore z (List.mem_cons_of_mem y hz)

/-- If the one thing is not so any more at a note, then the other thing has happened, and the one
    thing was so up to there. -/
theorem Until.exists_of_not (h : Until P Q hist) (hx : x ∈ hist) (hnot : ¬ P x) :
    ∃ y ∈ hist, P y ∧ Q y := by
  induction hist with
  | nil => cases hx
  | cons z hist ih =>
    -- The condition ends at the head, or it holds on into the tail.
    rcases h.2 with hQ | hrest
    · exact ⟨z, List.mem_cons_self, h.1, hQ⟩
    · have hne : x ≠ z := fun he => hnot (he ▸ h.1)
      obtain ⟨y, hy, hfound⟩ := ih hrest ((List.mem_cons.mp hx).resolve_left hne)
      exact ⟨y, List.mem_cons_of_mem z hy, hfound⟩

end Since

end Intake
