import Intake.Timeline

/-!
# What is kept as time passes

- `Passes`: time goes on while nothing can be done
- `runUntil_keeps`: what each thing that is done keeps is kept as time passes
- `exists_inputs_of_runUntil`: where each thing that is done is an input to a machine, the passing
  of time is a run of it
- `Timely.runUntil_keeps`: the clock goes past no instant at which something could be done
-/

namespace Intake.Timeline

variable {σ : Type} {T : Timeline σ} {P : Nat → σ → Prop}

/-- Time goes from one instant to another, and at none in between anything could be done. -/
structure Passes (T : Timeline σ) (now now' : Nat) (s : σ) : Prop where
  le : now ≤ now'
  idle : ∀ u < now', now ≤ u → T.act? u s = none

instance (now now' : Nat) (s : σ) : Decidable (T.Passes now now' s) :=
  decidable_of_iff (now ≤ now' ∧ ∀ u < now', now ≤ u → (T.act? u s).isNone)
    ⟨fun h => ⟨h.1, fun u hlt hu => Option.isNone_iff_eq_none.mp (h.2 u hlt hu)⟩,
      fun h => ⟨h.le, fun u hlt hu => Option.isNone_iff_eq_none.mpr (h.idle u hlt hu)⟩⟩

/-- Time goes on from where it has gone to. -/
theorem Passes.trans {t t' t'' : Nat} {s : σ} (h : T.Passes t t' s) (h' : T.Passes t' t'' s) :
    T.Passes t t'' s := by
  refine ⟨Nat.le_trans h.le h'.le, fun u hlt hle => ?_⟩
  rcases Nat.lt_or_ge u t' with hu | hu
  · exact h.idle u hu hle
  · exact h'.idle u hlt hu

/-- What each thing that is done keeps is kept by all that is done at an instant. -/
private theorem settleFor_keeps {now : Nat}
    (hact : ∀ s s', T.act? now s = some s' → P now s → P now s')
    (fuel : Nat) {s : σ} (h : P now s) : P now (T.settleFor now fuel s) := by
  induction fuel generalizing s with
  | zero => exact h
  | succ fuel ih =>
    unfold settleFor
    split
    · exact h
    next s' hs => exact ih (hact s s' hs h)

/-- What each thing that is done keeps, and the passing of time, is kept as time passes. -/
theorem runUntil_keeps (hact : ∀ now s s', T.act? now s = some s' → P now s → P now s')
    (hlater : ∀ now now' s, now ≤ now' → P now s → P now' s) (done : σ → Bool)
    (limit now : Nat) {s : σ} (h : P now s) :
    P (T.runUntil done limit now s).1 (T.runUntil done limit now s).2 := by
  fun_induction T.runUntil done limit now s with
  | case1 now s s' hdone => exact settleFor_keeps (hact now) burst h
  | case2 now s s' hdone hlt ih =>
    have hs : P now s' := settleFor_keeps (hact now) burst h
    exact ih (hlater now _ s' (Nat.le_of_lt (T.lt_hop hlt s')) hs)
  | case3 now s s' hdone hlt => exact settleFor_keeps (hact now) burst h

/-- Where each thing that is done is an input to a machine, what holds of a run of the machine and is
    kept by each such input holds of a run that makes time pass, with its inputs in their order. -/
theorem exists_inputs_of_runUntil {ι : Type} {R : List (Nat × ι) → σ → Prop}
    (hact : ∀ now xs s s', T.act? now s = some s' → R xs s → ∃ i, R (xs ++ [(now, i)]) s')
    (done : σ → Bool) (limit now : Nat) {s : σ} (hs : R [] s) :
    ∃ xs : List (Nat × ι), (xs.map (·.1)).Pairwise (· ≤ ·) ∧
      (∀ x ∈ xs, now ≤ x.1 ∧ x.1 ≤ (T.runUntil done limit now s).1) ∧
      R xs (T.runUntil done limit now s).2 := by
  have hrun := T.runUntil_keeps (P := fun t m => now ≤ t ∧ ∃ xs : List (Nat × ι),
    (xs.map (·.1)).Pairwise (· ≤ ·) ∧ (∀ x ∈ xs, now ≤ x.1 ∧ x.1 ≤ t) ∧ R xs m)
    ?act ?later done limit now ⟨Nat.le_refl now, [], .nil, nofun, hs⟩
  · exact hrun.2
  case act =>
    rintro t m m' hm ⟨hle, xs, hsorted, hxs, hR⟩
    obtain ⟨i, hR'⟩ := hact t xs m m' hm hR
    refine ⟨hle, xs ++ [(t, i)], ?_, fun x hx => ?_, hR'⟩
    -- The new input comes at the latest instant so far.
    · rw [List.map_append, List.pairwise_append]
      refine ⟨hsorted, List.pairwise_singleton .., fun a ha b hb => ?_⟩
      obtain ⟨x, hx, rfl⟩ := List.mem_map.mp ha
      rw [List.mem_singleton.mp hb]
      exact (hxs x hx).2
    · rcases List.mem_append.mp hx with hx | hx
      · exact hxs x hx
      · rw [List.mem_singleton.mp hx]
        exact ⟨hle, Nat.le_refl t⟩
  case later =>
    rintro t t' m hle ⟨hnow, xs, hsorted, hxs, hR⟩
    exact ⟨Nat.le_trans hnow hle, xs, hsorted,
      fun x hx => (hxs x hx).imp_right fun h => Nat.le_trans h hle, hR⟩

/-! ## A clock that misses nothing -/

/-- As long as the instant for which something waits has not come, nothing can be done. -/
def Timely (T : Timeline σ) : Prop :=
  ∀ u s, (∀ t, T.next? s = some t → u < t) → T.act? u s = none

/-- If whatever is done leaves less to do, in the end nothing can be done. -/
theorem act?_settleFor_eq_none {now : Nat} (work : σ → Nat)
    (hless : ∀ s s', T.act? now s = some s' → work s' < work s) {fuel : Nat} {s : σ}
    (h : work s ≤ fuel) : T.act? now (T.settleFor now fuel s) = none := by
  induction fuel generalizing s with
  | zero =>
    -- Without fuel there is no work left either.
    refine Option.eq_none_iff_forall_ne_some.mpr fun s' hs => ?_
    exact absurd (hless s s' hs) (by omega)
  | succ fuel ih =>
    unfold settleFor
    cases hs : T.act? now s with
    | none => exact hs
    | some s' =>
      have hfewer := hless s s' hs
      exact ih (by omega)

/-- The clock does not go past an instant at which something could be done. -/
private theorem Timely.passes_hop (h : T.Timely) {now limit : Nat} {s : σ}
    (hidle : T.act? now s = none) (hlt : now < limit) : T.Passes now (T.hop now limit s) s := by
  -- Nothing is to be done now, and nothing before the next instant that is named.
  refine ⟨Nat.le_of_lt (T.lt_hop hlt s), fun u hu hle => ?_⟩
  rcases Nat.eq_or_lt_of_le hle with rfl | hnow
  · exact hidle
  · refine h u s fun t ht => ?_
    rw [hop, ht] at hu
    dsimp only at hu
    omega

/-- What each thing that is done keeps, and time that passes while nothing can be done, is kept as
    time passes, and at the end nothing can be done. -/
theorem Timely.runUntil_keeps (h : T.Timely)
    (hact : ∀ now s s', T.act? now s = some s' → P now s → P now s')
    (hsettled : ∀ now s, P now s → T.act? now (T.settle now s) = none)
    (hlater : ∀ now now' s, T.Passes now now' s → P now s → P now' s) (done : σ → Bool)
    (limit now : Nat) {s : σ} (hs : P now s) :
    P (T.runUntil done limit now s).1 (T.runUntil done limit now s).2 ∧
      T.act? (T.runUntil done limit now s).1 (T.runUntil done limit now s).2 = none := by
  fun_induction T.runUntil done limit now s with
  | case1 now s s' hdone => exact ⟨settleFor_keeps (hact now) burst hs, hsettled now s hs⟩
  | case2 now s s' hdone hlt ih =>
    have hs' : P now s' := settleFor_keeps (hact now) burst hs
    exact ih (hlater now _ s' (h.passes_hop (hsettled now s hs) hlt) hs')
  | case3 now s s' hdone hlt => exact ⟨settleFor_keeps (hact now) burst hs, hsettled now s hs⟩

/-- Time goes on until a limit. -/
theorem fst_advance (T : Timeline σ) {limit now : Nat} (hle : now ≤ limit) (s : σ) :
    (T.advance limit now s).1 = limit := by
  unfold advance
  fun_induction T.runUntil (fun _ => false) limit now s with
  | case1 now s s' hdone => cases hdone
  | case2 now s s' hdone hlt ih => exact ih (T.hop_le s')
  | case3 now s s' hdone hlt => exact Nat.le_antisymm hle (Nat.le_of_not_lt hlt)

end Intake.Timeline
