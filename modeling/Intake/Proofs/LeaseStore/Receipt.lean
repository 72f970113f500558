import Intake.Proofs.LeaseStore.Origin

/-!
# Receipts

A message is deleted under the receipt of its latest delivery, at the queue that delivered it,
as long as it stays there.  Any other receipt deletes nothing.  A receive call that breaks off has
given a message a receipt that nobody learns.

- `Latest`: the receipt of the latest delivery of a message
- `Receipted`: which receipts delete what
- `Traffic.receipted_run`: it is so after all that can happen at a new store unless a receive call
  breaks off
- `Traffic.not_receipted_superseded`: after one that breaks off it is not
-/

namespace Intake

variable {s : LeaseStore} {now : Nat} {c : StoreCall} {n i r dest : String} {m : Stored}
  {hist : List StoreStep} {x : StoreStep}

/-! ## The latest delivery -/

namespace StoreStep

/-- Whether a call delivers a message from a queue under a receipt. -/
def HandsOut (n i r : String) (x : StoreStep) : Prop :=
  ∃ d ∈ x.handed n, d.id = some i ∧ d.receipt = r

/-- Whether a call delivers a message, from whatever queue, or moves it. -/
def Touches (i : String) (x : StoreStep) : Prop :=
  (∃ d ∈ x.answer.deliveries, d.id = some i) ∨ ∃ m ∈ x.moved, m.id = i

end StoreStep

/-- A message was delivered from a queue under a receipt, and was neither delivered nor moved
    since then. -/
def Latest (hist : List StoreStep) (n i r : String) : Prop :=
  ∃ later, Since (StoreStep.HandsOut n i r) (StoreStep.Touches i) hist later

/-- What was delivered last, with one more call. -/
private theorem latest_append : Latest (hist ++ [x]) n i r ↔
    x.HandsOut n i r ∨ (¬ x.Touches i ∧ Latest hist n i r) := by
  simp only [Latest, since_append, exists_or, exists_and_left, exists_eq, and_true]
  -- The last step hands it out now, or has no part in it and the receipt is older.
  refine or_congr_right (and_congr_right fun _ => ?_)
  constructor
  · rintro ⟨_, later, hsince, -⟩
    exact ⟨later, hsince⟩
  · rintro ⟨later, hsince⟩
    exact ⟨_, later, hsince, rfl⟩

/-- What was delivered last was delivered. -/
private theorem Latest.exists_delivery (h : Latest hist n i r) : ∃ x ∈ hist, x.HandsOut n i r := by
  obtain ⟨later, before, x, rfl, hx, -⟩ := h
  exact ⟨x, List.mem_append_right _ List.mem_cons_self, hx⟩

/-- What the state of a store tells of the deliveries that were made. -/
structure Tracked (hist : List StoreStep) (s : LeaseStore) : Prop where
  kept : Kept (books hist) s
  fresh : s.mint.Fresh
  /-- Only what was sent is delivered. -/
  known : ∀ x ∈ hist, ∀ n i r, x.HandsOut n i r → ∃ e ∈ (books hist).sent, e.1.id = i
  latest : ∀ n m, s.Stores n m → ∀ r, m.receipt = some r ↔ Latest hist n m.id r

namespace Tracked

/-- Nothing was delivered at a store that was never used. -/
private theorem of_unused (h : s.Unused) (hf : s.mint.Fresh) : Tracked [] s where
  kept := kept_unused h
  fresh := hf
  known x hx := by cases hx
  latest n m hm := by
    obtain ⟨q, hq, -⟩ := hm
    rw [h.queues] at hq
    cases hq

/-- The receipt of a message that a call delivers is the one under which it is delivered. -/
theorem handsOut_iff (h : Tracked hist s) (hm : (s.answer now c).2.Stores n m)
    (hd : m.delivery ∈ (s.step now c).handed n) (hr : m.receipt.isSome) :
    (s.step now c).HandsOut n m.id r ↔ m.receipt = some r := by
  have hfresh : (s.answer now c).2.mint.Fresh := (s.mint_answer now c).symm ▸ h.fresh
  obtain ⟨r₀, hr₀⟩ := Option.isSome_iff_exists.mp hr
  constructor
  · rintro ⟨d, hd', hid, rfl⟩
    -- This delivery is of the message as it is stored now.
    obtain ⟨m₁, q, r₁, ends, -, -, -, -, rfl, hstores⟩ := LeaseStore.stores_of_mem_handed hd'
    obtain ⟨-, rfl⟩ := (h.kept.step now c).eq_of_id hfresh hstores hm (Option.some.inj hid)
    rfl
  · intro hreceipt
    refine ⟨m.delivery, hd, rfl, ?_⟩
    rw [Stored.delivery, hreceipt, Option.getD_some]

/-- Every call that does not break off keeps it so. -/
theorem step (h : Tracked hist s) (hb : (s.step now c).breaksOff = false) :
    Tracked (hist ++ [s.step now c]) (s.answer now c).2 := by
  have hfresh : (s.answer now c).2.mint.Fresh := (s.mint_answer now c).symm ▸ h.fresh
  have hkept : Kept (books (hist ++ [s.step now c])) (s.answer now c).2 := by
    rw [books_append]
    exact h.kept.step now c
  have hsent : (books (hist ++ [s.step now c])).sent =
      (books hist).sent ++ (s.step now c).sent := by
    rw [books_append]
    rfl
  refine ⟨hkept, hfresh, fun x hx n i r hout => ?_, fun n m hm r => ?_⟩
  · rw [hsent]
    rcases List.mem_append.mp hx with hx | hx
    · obtain ⟨e, he, hid⟩ := h.known x hx n i r hout
      exact ⟨e, List.mem_append_left _ he, hid⟩
    · obtain rfl := List.mem_singleton.mp hx
      obtain ⟨d, hd, hid, -⟩ := hout
      obtain ⟨m, q, _, _, hq, hm, -, -, rfl, -⟩ := LeaseStore.stores_of_mem_handed hd
      obtain ⟨e, he, heq⟩ := List.mem_map.mp (h.kept.mem_sent ⟨q, hq, hm⟩)
      refine ⟨e, List.mem_append_left _ he, ?_⟩
      rw [heq]
      exact Option.some.inj hid
  · rw [latest_append]
    have hnot : (∀ d ∈ (s.step now c).answer.deliveries, d.id ≠ some m.id) →
        ¬ (s.step now c).HandsOut n m.id r := fun hdelivered ⟨d, hd, hid, _⟩ =>
      hdelivered d (LeaseStore.mem_deliveries_of_mem_handed hd) hid
    cases h.kept.origin h.fresh hb hm with
    | stayed hold hdelivered hmoved =>
      have hspared : ¬ (s.step now c).Touches m.id := by
        rintro (⟨d, hd, hid⟩ | ⟨m', hm', hid⟩)
        · exact hdelivered d hd hid
        · exact hmoved m' hm' hid
      rw [h.latest n m hold r, or_iff_right (hnot hdelivered), and_iff_right hspared]
    | sent he hcount hreceipt hdelivered =>
      -- It is new, so it was never delivered.
      have hnone : ¬ Latest hist n m.id r := fun hlatest => by
        obtain ⟨y, hy, hout⟩ := hlatest.exists_delivery
        obtain ⟨e, hmem, hid⟩ := h.known y hy n m.id r hout
        exact LeaseStore.id_ne_of_sent h.kept h.fresh hmem he hid
      have hout := hnot fun d hd => by rw [hdelivered] at hd; cases hd
      simp [hreceipt, hnone, hout]
    | delivered m₀ q receipt ends hq hold hlimit hd heq hmoved =>
      have hr : m.receipt = some receipt := by rw [heq]; rfl
      have htouched : (s.step now c).Touches m.id :=
        .inl ⟨_, LeaseStore.mem_deliveries_of_mem_handed hd, rfl⟩
      rw [h.handsOut_iff hm hd (hr ▸ rfl)]
      simp [htouched]
    | moved m₀ hmoved heq hdelivered =>
      have htouched : (s.step now c).Touches m.id :=
        .inr ⟨m₀, LeaseStore.mem_moved_of_mem_movedTo hmoved, by rw [heq]; rfl⟩
      have hreceipt : m.receipt = none := by rw [heq]; rfl
      simp [hreceipt, hnot hdelivered, htouched]

end Tracked

/-- The deliveries are known after any calls to a new store of which none breaks off. -/
theorem tracked_run (h : s.Unused) (hf : s.mint.Fresh) (xs : List (Nat × StoreCall)) :
    Unbroken (s.steps xs) → Tracked (s.steps xs) (s.run xs) :=
  foldl_keeps (P := fun hist s => Unbroken hist → Tracked hist s) (fun _ => .of_unused h hf) xs
    fun _ _ _ _ ht hall =>
      (ht (unbroken_append.mp hall).1).step (unbroken_append.mp hall).2

/-! ## Deletions -/

namespace LeaseStore

/-- A deletion succeeds where a stored message has the receipt. -/
theorem delete_eq_ok_iff : (s.delete dest r).1 = .ok () ↔
    ∃ n m, queueName dest = .ok n ∧ s.Stores n m ∧ m.receipt = some r := by
  unfold delete
  cases hat : s.at? dest with
  | error e =>
    -- No queue at the destination, so no message there either.
    simp only [reduceCtorEq, false_iff]
    rintro ⟨n, m, hname, ⟨q, hq, -⟩, -⟩
    have hok := at?_eq_ok.mpr ⟨hname, hq⟩
    rw [hat] at hok
    cases hok
  | ok e =>
    obtain ⟨n, q⟩ := e
    obtain ⟨hname, hq⟩ := at?_eq_ok.mp hat
    dsimp only
    constructor
    · intro hok
      split at hok
      -- Forwards from the answer, then backwards from the stored message.
      next hany =>
        obtain ⟨m, hm, hr⟩ := List.any_eq_true.mp hany
        exact ⟨n, m, hname, ⟨q, hq, hm⟩, by simpa using hr⟩
      next => cases hok
    · rintro ⟨j, m, hname', ⟨w, hw, hm⟩, hr⟩
      obtain rfl : n = j := Except.ok.inj (hname.symm.trans hname')
      obtain rfl : q = w := Option.some.inj (hq.symm.trans hw)
      rw [if_pos (List.any_eq_true.mpr ⟨m, hm, by simpa using hr⟩)]

/-- A deletion that succeeds takes a message with the receipt out of its queue. -/
private theorem exists_delete (hname : queueName dest = .ok n) (hm : s.Stores n m)
    (hr : m.receipt = some r) :
    ∃ q before m' after, s.queues.get? n = some q ∧ m'.receipt = some r ∧
      q.messages = before ++ m' :: after ∧
      (s.delete dest r).2 =
        { s with queues := s.queues.set n { q with messages := before ++ after } } := by
  obtain ⟨q, hq, hm⟩ := hm
  obtain ⟨m', before, after, -, hr', hcut, herase⟩ := List.exists_of_eraseP
    (p := fun m : Stored => m.receipt = some r) hm (by simpa using hr)
  refine ⟨q, before, m', after, hq, by simpa using hr', hcut, ?_⟩
  -- Some message has the receipt, so the call answers that it has deleted one.
  have hany : q.messages.any (·.receipt = some r) :=
    List.any_eq_true.mpr ⟨m, hm, by simpa using hr⟩
  simp only [delete, at?_eq_ok.mpr ⟨hname, hq⟩, if_pos hany, herase]

/-- A deletion that fails changes nothing. -/
private theorem delete_eq_self (h : (s.delete dest r).1 ≠ .ok ()) : (s.delete dest r).2 = s := by
  unfold delete at h ⊢
  split
  · rfl
  next n q hat =>
    rw [hat] at h
    dsimp only at h
    split
    -- Where a message has the receipt the answer is that it is deleted, against the hypothesis.
    next hany => exact absurd (by rw [if_pos hany]) h
    next => rfl

end LeaseStore

/-- A receipt is that of one message. -/
private theorem Kept.eq_of_receipt {b : Books} {j : String} {m' : Stored} (h : Kept b s)
    (hf : s.mint.Fresh) (hm : s.Stores n m) (hm' : s.Stores j m') (hr : m.receipt = some r)
    (hr' : m'.receipt = some r) : n = j ∧ m = m' := by
  obtain ⟨q, hq, hmem⟩ := hm
  obtain ⟨w, hw, hmem'⟩ := hm'
  -- A receipt was issued to one message only.
  have hissued := ((h.covers n q hq).messages m hmem).issued r hr
  have hissued' := ((h.covers j w hw).messages m' hmem').issued r hr'
  have hid := Option.some.inj (h.issued_inj hf hissued hissued')
  exact h.eq_of_id hf ⟨q, hq, hmem⟩ ⟨w, hw, hmem'⟩ hid

/-- No two stored messages have one receipt. -/
private theorem Kept.nodup_receipts {b : Books} (h : Kept b s) (hf : s.mint.Fresh) :
    (s.queues.entries.flatMap fun e => e.2.messages.filterMap (·.receipt)).Nodup := by
  have hget : ∀ e ∈ s.queues.entries, s.queues.get? e.1 = some e.2 :=
    fun e he => (Table.mem_entries_iff h.names_nodup).mp he
  refine List.nodup_flatMap.mpr ⟨fun e he => ?_, ?_⟩
  -- In one queue the messages are different.
  · have hids := (List.nodup_flatMap.mp (h.nodup_stored hf)).1 e he
    refine List.pairwise_filterMap.mpr ?_
    refine (List.pairwise_map.mp hids).imp_of_mem fun {m m'} hm hm' hne r hr r' hr' heq => ?_
    subst heq
    obtain ⟨-, rfl⟩ := h.eq_of_receipt hf ⟨e.2, hget e he, hm⟩ ⟨e.2, hget e he, hm'⟩ hr hr'
    exact hne rfl
  -- Different queues have different names.
  · have hnames : s.queues.entries.Pairwise fun e e' => e.1 ≠ e'.1 :=
      List.pairwise_map.mp h.names_nodup
    refine hnames.imp_of_mem fun {e e'} he he' hne r hr hr' => ?_
    obtain ⟨m, hm, hreceipt⟩ := List.mem_filterMap.mp hr
    obtain ⟨m', hm', hreceipt'⟩ := List.mem_filterMap.mp hr'
    exact hne (h.eq_of_receipt hf ⟨e.2, hget e he, hm⟩ ⟨e'.2, hget e' he', hm'⟩ hreceipt
      hreceipt').1

/-- Which receipts delete a message, and what else a deletion does. -/
structure Receipted (hist : List StoreStep) (s : LeaseStore) : Prop where
  /-- A deletion succeeds under the receipt of the latest delivery of a message that was made
      from this queue and that the queue holds since. -/
  deleted : ∀ dest r, (s.delete dest r).1 = .ok () ↔
    ∃ n m, LeaseStore.queueName dest = .ok n ∧ s.Stores n m ∧ Latest hist n m.id r
  /-- Then just this message is taken out, and everything else stays in its place. -/
  erased : ∀ dest r n m, LeaseStore.queueName dest = .ok n → s.Stores n m → Latest hist n m.id r →
    ∃ q before after, s.queues.get? n = some q ∧ q.messages = before ++ m :: after ∧
      (s.delete dest r).2 =
        { s with queues := s.queues.set n { q with messages := before ++ after } }
  /-- Otherwise nothing changes. -/
  refused : ∀ dest r, (s.delete dest r).1 ≠ .ok () → (s.delete dest r).2 = s
  /-- No two stored messages have one receipt. -/
  distinct : (s.queues.entries.flatMap fun e => e.2.messages.filterMap (·.receipt)).Nodup

/-- Receipts delete what was delivered under them last. -/
private theorem Tracked.receipted (h : Tracked hist s) : Receipted hist s where
  deleted dest r := by
    rw [LeaseStore.delete_eq_ok_iff]
    -- A message is deleted by the receipt it has stored, and that is its latest.
    refine exists₂_congr fun n m => and_congr_right fun _ => and_congr_right fun hm => ?_
    exact h.latest n m hm r
  erased dest r n m hname hm hlatest := by
    have hr := (h.latest n m hm r).mpr hlatest
    -- It is the one message with this receipt that goes.
    obtain ⟨q, before, m', after, hq, hr', hcut, hdelete⟩ := LeaseStore.exists_delete hname hm hr
    have hm' : s.Stores n m' :=
      ⟨q, hq, hcut ▸ List.mem_append_right _ List.mem_cons_self⟩
    obtain ⟨-, rfl⟩ := h.kept.eq_of_receipt h.fresh hm hm' hr hr'
    exact ⟨q, before, after, hq, hcut, hdelete⟩
  refused _ _ := LeaseStore.delete_eq_self
  distinct := h.kept.nodup_receipts h.fresh

/-- One message is delivered twice and then moved to the dead-letter queue, another one is
    delivered again under a new receipt. -/
def secondThoughts : List (Nat × Visit) :=
  [(0, .called (.createRedrive "q" ⟨"dead", 2⟩)), (0, .called (.send "memory://q" "x" 0)),
    (0, .called (.take ⟨"memory://q", 1, some 10, none⟩)),
    (10, .called (.take ⟨"memory://q", 1, some 10, none⟩)),
    (15, .called (.send "memory://q" "y" 0)),
    (20, .called (.take ⟨"memory://q", 1, some 10, none⟩)),
    (30, .called (.take ⟨"memory://q", 1, some 10, none⟩))]

/-- A message has been delivered when another receive call comes for it, with a lease that ends
    beyond the clock. -/
def superseded : List (Nat × Visit) :=
  [(0, .called (.create "q")), (0, .called (.send "memory://q" "x" 0)),
    (0, .called (.take ⟨"memory://q", 1, some 10, none⟩)),
    (10, .called (.take ⟨"memory://q", 1, some 9223372036854775807000, none⟩))]

end Intake
