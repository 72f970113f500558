import Intake.LeaseStore
import Mathlib.Data.List.Nodup
import Mathlib.Data.List.Perm.Basic

/-!
# What one pass over a queue does

A pass sorts the messages of a queue into those that stay and those that leave.  Of those
that stay some are delivered, each under a receipt of its own; what was sent with a
message goes wherever the message goes.

- `perm_pass`: what stays and what leaves is what was there
- `mem_kept_pass`, `mem_taken_pass`, `mem_exhausted_pass`: which messages they are
- `coined_pass`: deliveries are under the receipts that the mint gives one after another
-/

namespace Intake

/-- What was sent.  It is the same as long as the message is stored. -/
structure Parcel where
  id : String
  body : String
  sentAt : Nat
deriving DecidableEq, Repr

namespace Stored

/-- What was sent with a message. -/
def parcel (m : Stored) : Parcel := ⟨m.id, m.body, m.sentAt⟩

/-- A delivery leaves the parcel of the message. -/
@[simp] theorem parcel_deliver (m : Stored) (receipt : String) (t : Nat) :
    (m.deliver receipt t).parcel = m.parcel := rfl

end Stored

/-! ## Fresh names -/

/-- The names that are given to some bodies, of which the newest comes first, in the order in
    which they are given. -/
def coined (f : List String → String → String) : List String → List String
  | [] => []
  | b :: bs => coined f bs ++ [f bs b]

/-- A mint that gives no identifier and no receipt twice. -/
structure Mint.Fresh (mint : Mint) : Prop where
  ids : ∀ bodies, (coined mint.id bodies).Nodup
  receipts : ∀ bodies, (coined mint.receipt bodies).Nodup

/-- Numbers in decimals are read back. -/
private theorem eq_of_toString_eq {i j : Nat} (h : toString i = toString j) : i = j := by
  rw [Nat.toString_eq_repr, Nat.toString_eq_repr, Nat.repr_eq_ofList_toDigits,
    Nat.repr_eq_ofList_toDigits, String.ofList_inj] at h
  rw [← Nat.ofDigitChars_ten_toDigits (n := i), h, Nat.ofDigitChars_ten_toDigits]

/-- Names that are numbered in their order are all different. -/
private theorem nodup_coined_numbered (start : String) (bodies : List String) :
    (coined (fun bs _ => start ++ toString (bs.length + 1)) bodies).Nodup := by
  -- The names are those of the numbers from one on.
  have hall : coined (fun bs _ => start ++ toString (bs.length + 1)) bodies =
      (List.range bodies.length).map fun i => start ++ toString (i + 1) := by
    induction bodies with
    | nil => rfl
    | cons b bs ih => rw [coined, ih, List.length_cons, List.range_succ, List.map_append]; rfl
  rw [hall]
  refine List.nodup_range.map fun i j hij => ?_
  have hnumber : toString (i + 1) = toString (j + 1) := String.append_right_inj start |>.mp hij
  have := eq_of_toString_eq hnumber
  omega

/-- Numbering in order gives no name twice. -/
theorem Mint.fresh_serial : Mint.serial.Fresh :=
  ⟨nodup_coined_numbered "m", nodup_coined_numbered "r"⟩

/-! ## One pass -/

section Pass

variable {mint : Mint} {rule : Option Redrive} {now limit : Nat} {hide : Nat → Nat}
  {delivered : List String} {ms : List Stored} {m : Stored}

/-- What stays and what leaves is what was there. -/
theorem perm_pass (mint : Mint) (rule : Option Redrive) (now : Nat) (hide : Nat → Nat)
    (limit : Nat) (delivered : List String) (ms : List Stored) :
    (((pass mint rule now hide limit delivered ms).kept ++
      (pass mint rule now hide limit delivered ms).exhausted).map (·.parcel)).Perm
        (ms.map (·.parcel)) := by
  fun_induction pass mint rule now hide limit delivered ms with
  | case1 => simp
  | case2 => simp
  -- A hidden message stays where it is.
  | case3 limit delivered m ms hv p ih => exact ih.cons m.parcel
  -- An exhausted one leaves from the middle of what was there.
  | case4 limit delivered m ms hv he p ih =>
    rw [List.map_append, List.map_cons]
    rw [List.map_append] at ih
    exact List.perm_middle.trans (ih.cons m.parcel)
  -- What is delivered stays, and the delivery changes nothing of what was sent.
  | case5 limit delivered m ms hv he m' p ih => exact ih.cons m.parcel

/-- What is delivered could be received and was not delivered too often. -/
theorem mem_taken_pass (hm : m ∈ (pass mint rule now hide limit delivered ms).taken) :
    ∃ m₀ ∈ ms, m₀.isVisible now = true ∧ m₀.isExhausted rule = false ∧
      m = m₀.deliver m.delivery.receipt (hide m₀.visibleAt) := by
  -- Along the pass: only the message that is deliverable is taken.
  fun_induction pass mint rule now hide limit delivered ms with
  | case1 | case2 => cases hm
  | case3 limit delivered m₀ ms hv p ih | case4 limit delivered m₀ ms hv he p ih =>
    obtain ⟨m₁, hmem, hm₁⟩ := ih hm
    exact ⟨m₁, List.mem_cons_of_mem _ hmem, hm₁⟩
  | case5 limit delivered m₀ ms hv he m' p ih =>
    rcases List.mem_cons.mp hm with rfl | hm
    · exact ⟨m₀, List.mem_cons_self, by simpa using hv, by simpa using he, rfl⟩
    · obtain ⟨m₁, hmem, hm₁⟩ := ih hm
      exact ⟨m₁, List.mem_cons_of_mem _ hmem, hm₁⟩

/-- What stays is as it was, or is delivered. -/
theorem mem_kept_pass (hm : m ∈ (pass mint rule now hide limit delivered ms).kept) :
    m ∈ ms ∨ m ∈ (pass mint rule now hide limit delivered ms).taken := by
  -- Along the pass: what is exhausted is not kept.
  fun_induction pass mint rule now hide limit delivered ms with
  | case1 => exact .inl hm
  | case2 => cases hm
  | case3 limit delivered m₀ ms hv p ih =>
    rcases List.mem_cons.mp hm with rfl | hm
    · exact .inl List.mem_cons_self
    · exact (ih hm).imp_left (List.mem_cons_of_mem _)
  | case4 limit delivered m₀ ms hv he p ih => exact (ih hm).imp_left (List.mem_cons_of_mem _)
  | case5 limit delivered m₀ ms hv he m' p ih =>
    rcases List.mem_cons.mp hm with rfl | hm
    · exact .inr List.mem_cons_self
    · exact (ih hm).imp (List.mem_cons_of_mem _) (List.mem_cons_of_mem _)

/-- What is delivered stays. -/
theorem sublist_taken_pass (mint : Mint) (rule : Option Redrive) (now : Nat) (hide : Nat → Nat)
    (limit : Nat) (delivered : List String) (ms : List Stored) :
    (pass mint rule now hide limit delivered ms).taken.Sublist
      (pass mint rule now hide limit delivered ms).kept := by
  fun_induction pass mint rule now hide limit delivered ms with
  | case1 | case2 => exact List.nil_sublist _
  | case3 limit delivered m ms hv p ih => exact ih.cons m
  | case4 limit delivered m ms hv he p ih => exact ih
  | case5 limit delivered m ms hv he m' p ih => exact ih.cons_cons m'

/-- What is delivered and what leaves has different identifiers if what was there has. -/
theorem nodup_pass (hnodup : (ms.map (·.id)).Nodup) :
    let p := pass mint rule now hide limit delivered ms
    ((p.taken ++ p.exhausted).map (·.id)).Nodup := by
  intro p
  -- What is kept and what is exhausted make up the queue as it was, by identifier.
  have hall := (perm_pass mint rule now hide limit delivered ms).map (·.id)
  rw [List.map_map, List.map_map] at hall
  have hsub : (p.taken ++ p.exhausted).Sublist (p.kept ++ p.exhausted) :=
    (sublist_taken_pass ..).append_right _
  exact (hsub.map _).nodup (hall.nodup_iff.mpr hnodup)

/-- What leaves could be received and was delivered too often. -/
theorem mem_exhausted_pass
    (hm : m ∈ (pass mint rule now hide limit delivered ms).exhausted) :
    m ∈ ms ∧ m.isVisible now = true ∧ m.isExhausted rule = true := by
  fun_induction pass mint rule now hide limit delivered ms with
  | case1 | case2 => cases hm
  | case3 limit delivered m₀ ms hv p ih => exact (ih hm).imp_left (List.mem_cons_of_mem _)
  | case4 limit delivered m₀ ms hv he p ih =>
    -- The message in front is exhausted; it is the one meant or comes before it.
    rcases List.mem_cons.mp hm with rfl | hm
    · exact ⟨List.mem_cons_self, by simpa using hv, he⟩
    · exact (ih hm).imp_left (List.mem_cons_of_mem _)
  | case5 limit delivered m₀ ms hv he m' p ih => exact (ih hm).imp_left (List.mem_cons_of_mem _)

/-- The deliveries of a pass are under the next receipts of the mint. -/
theorem coined_pass (mint : Mint) (rule : Option Redrive) (now : Nat) (hide : Nat → Nat)
    (limit : Nat) (delivered : List String) (ms : List Stored) :
    let p := pass mint rule now hide limit delivered ms
    coined mint.receipt ((p.taken.map Stored.body).reverse ++ delivered) =
      coined mint.receipt delivered ++ p.taken.map (·.delivery.receipt) := by
  fun_induction pass mint rule now hide limit delivered ms with
  | case1 | case2 => exact (List.append_nil _).symm
  | case3 limit delivered m ms hv p ih | case4 limit delivered m ms hv he p ih => exact ih
  | case5 limit delivered m ms hv he m' p ih =>
    -- This delivery comes first, so the mint names the others after it.
    have hbody : m'.body = m.body := rfl
    have hfirst : coined mint.receipt (m.body :: delivered) =
        coined mint.receipt delivered ++ [m'.delivery.receipt] := rfl
    simp only [List.map_cons, List.reverse_cons, List.append_assoc, List.singleton_append, hbody]
    rw [ih, hfirst, List.append_assoc, List.singleton_append]

end Pass

end Intake
