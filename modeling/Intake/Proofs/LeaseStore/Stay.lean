import Intake.Proofs.LeaseStore.Origin

/-!
# How often a message is delivered in one queue

A message stays in a queue from when it is sent or moved there until it is moved on or removed.
During a stay its deliveries are counted, and the redrive rule of the queue bounds them.  A receive
call that breaks off is counted for the message with which it breaks off, though it delivers none.

- `Stay`: a message is in a queue for the time of some calls
- `Rationed`: what is delivered in a stay, and when it ends in a move
- `Traffic.rationed_run`: it is so after all that can happen at a new store unless a receive call
  breaks off
- `Traffic.not_rationed_miscounted`: after one that breaks off it is not
-/

namespace Intake

variable {s : LeaseStore} {now : Nat} {c : StoreCall} {n j i : String} {m m₀ : Stored}
  {hist stay : List StoreStep} {x : StoreStep}

/-! ## Stays -/

namespace StoreStep

/-- Whether a call brings a message to a queue. -/
def Brings (n i : String) (x : StoreStep) : Prop :=
  (∃ e ∈ x.sent, e.1.id = i ∧ e.2 = n) ∨ ∃ m ∈ x.movedTo n, m.id = i

/-- Whether a call sends a message, moves it or removes it. -/
def Shifts (i : String) (x : StoreStep) : Prop :=
  (∃ e ∈ x.sent, e.1.id = i) ∨ (∃ m ∈ x.moved, m.id = i) ∨ ∃ p ∈ x.removed, p.id = i

end StoreStep

/-- A message was brought to a queue and is there since then, for the time of some calls. -/
def Stay (n i : String) (hist stay : List StoreStep) : Prop :=
  Since (StoreStep.Brings n i) (StoreStep.Shifts i) hist stay

/-- How often some calls deliver a message. -/
def deliveriesOf (i : String) (stay : List StoreStep) : Nat :=
  (stay.flatMap (·.answer.deliveries)).countP (·.id = some i)

/-- Whenever a call comes upon a queue, it has this redrive rule. -/
def Steady (hist : List StoreStep) (n : String) (rule : Option Redrive) : Prop :=
  ∀ x ∈ hist, ∀ q ∈ x.before.queues.get? n, q.redrive = rule

instance (hist : List StoreStep) (n : String) (rule : Option Redrive) :
    Decidable (Steady hist n rule) :=
  inferInstanceAs (Decidable (∀ x ∈ hist, ∀ q ∈ x.before.queues.get? n, q.redrive = rule))

/-- A queue that is steady among some calls is so among the first of them. -/
private theorem Steady.of_append {later : List StoreStep} {rule : Option Redrive}
    (h : Steady (hist ++ later) n rule) : Steady hist n rule :=
  fun x hx => h x (List.mem_append_left _ hx)

/-- The deliveries of one more call come last. -/
private theorem deliveriesOf_append (i : String) (stay : List StoreStep) (x : StoreStep) :
    deliveriesOf i (stay ++ [x]) =
      deliveriesOf i stay + x.answer.deliveries.countP (·.id = some i) := by
  simp [deliveriesOf]

/-- A stay goes on over a call that does not shift the message. -/
private theorem Stay.append (h : Stay n i hist stay) (hx : ¬ x.Shifts i) :
    Stay n i (hist ++ [x]) (stay ++ [x]) :=
  since_append.mpr (.inr ⟨hx, stay, h, rfl⟩)

/-- A stay begins at a call that brings the message. -/
private theorem stay_of_brings (hx : x.Brings n i) : Stay n i (hist ++ [x]) [] :=
  since_append.mpr (.inl ⟨hx, rfl⟩)

/-! ## What a delivery tells -/

/-- A delivery reports how often the message was delivered. -/
private theorem Stored.receiveCount_delivery (h : m.count < size32) :
    m.delivery.receiveCount = some m.count := by
  have hkey : m.delivery.systemAttributes.get? receiveCountKey = some (toString m.count) := by
    simp [delivery, Table.ofList, Table.setAll, Table.get?_set, receiveCountKey, sentAtKey]
  rw [Delivery.receiveCount, hkey]
  exact Text.unsigned?_toString h

/-- A call delivers a message once. -/
private theorem LeaseStore.nodup_deliveries {b : Books} (h : Kept b s) (hf : s.mint.Fresh)
    (now : Nat) (c : StoreCall) : ((s.step now c).answer.deliveries.map (·.id)).Nodup := by
  -- The deliveries are those of the leases.
  have hleases := (nodup_leases h hf now c).of_append_left
  cases c with
  | take r =>
    obtain ⟨e, hat⟩ | ⟨n, q, hat, hb | hb⟩ := s.take_cases now r
    · rw [deliveries_take_error hat]
      exact List.nodup_nil
    · rw [deliveries_of_breaksOff ((breaksOff_step hat now).trans hb)]
      exact List.nodup_nil
    · rw [leases_take hat hb, List.map_map] at hleases
      rw [deliveries_take hat hb, List.map_map]
      exact hleases
  | _ => exact List.nodup_nil

/-! ## Counts -/

/-- What the state of a store tells of the stays of its messages. -/
structure Staying (hist : List StoreStep) (s : LeaseStore) : Prop where
  kept : Kept (books hist) s
  fresh : s.mint.Fresh
  stays : ∀ n m, s.Stores n m → ∃ stay, Stay n m.id hist stay ∧ m.count = deliveriesOf m.id stay
  bounded : ∀ n m, s.Stores n m → ∀ rule, Steady hist n (some rule) → m.count ≤ rule.limit

namespace Staying

/-- Nothing stays in a store that was never used. -/
private theorem of_unused (h : s.Unused) (hf : s.mint.Fresh) : Staying [] s := by
  -- There is no message in an unused store to say anything of.
  have hnone : ∀ n m, ¬ s.Stores n m := by
    rintro n m ⟨q, hq, -⟩
    rw [h.queues] at hq
    cases hq
  exact ⟨kept_unused h, hf, fun n m hm => absurd hm (hnone n m),
    fun n m hm => absurd hm (hnone n m)⟩

/-- A call does not shift a message that is stored before and after it and that it does not
    move. -/
private theorem not_shifts (h : Staying hist s) (hm : s.Stores n m₀)
    (hm' : (s.answer now c).2.Stores j m)
    (hid : m₀.id = m.id) (hmoved : ∀ m' ∈ (s.step now c).moved, m'.id ≠ m.id) :
    ¬ (s.step now c).Shifts m.id := by
  have hfresh : (s.answer now c).2.mint.Fresh := (s.mint_answer now c).symm ▸ h.fresh
  -- Sent: then it would have been there before. Moved: it was not. Removed: it would be gone.
  rintro (⟨e, he, hsent⟩ | ⟨m', hm', hid'⟩ | ⟨p, hp, hremoved⟩)
  · obtain ⟨e', he', heq⟩ := List.mem_map.mp (h.kept.mem_sent hm)
    refine LeaseStore.id_ne_of_sent h.kept h.fresh he' he ?_
    rw [heq, hsent]
    exact hid
  · exact hmoved m' hm' hid'
  · have hmem : p ∈ ((books hist).append (s.step now c).books).removed :=
      List.mem_append_right _ hp
    exact (h.kept.step now c).id_ne_of_gone hfresh hm' (List.mem_append_left _ hmem) hremoved.symm

/-- A call that delivers a message delivers it once. -/
theorem deliveriesOf_step (h : Staying hist s) {d : Delivery} (hd : d ∈ (s.step now c).handed n)
    (hid : d.id = some i) : (s.step now c).answer.deliveries.countP (·.id = some i) = 1 := by
  have hnodup := LeaseStore.nodup_deliveries h.kept h.fresh now c
  -- One pass delivers each message at most once.
  have hle := List.countP_le_one hnodup (P := fun d => d.id = some i) fun d _ d' _ hd hd' => by
    rw [of_decide_eq_true hd, of_decide_eq_true hd']
  have hpos : 0 < (s.step now c).answer.deliveries.countP (·.id = some i) :=
    List.countP_pos_iff.mpr ⟨d, LeaseStore.mem_deliveries_of_mem_handed hd, by simpa using hid⟩
  omega

/-- Every call that does not break off keeps it so. -/
theorem step (h : Staying hist s) (hb : (s.step now c).breaksOff = false) :
    Staying (hist ++ [s.step now c]) (s.answer now c).2 := by
  have hfresh : (s.answer now c).2.mint.Fresh := (s.mint_answer now c).symm ▸ h.fresh
  have hkept : Kept (books (hist ++ [s.step now c])) (s.answer now c).2 := by
    rw [books_append]
    exact h.kept.step now c
  -- First the count of deliveries, then the bound on it; by where the message comes from each time.
  refine ⟨hkept, hfresh, fun n m hm => ?_, fun n m hm rule hsteady => ?_⟩
  · -- The stay is the one so far, unless the message was sent or moved here by this step.
    cases h.kept.origin h.fresh hb hm with
    | stayed hold hdelivered hmoved =>
      obtain ⟨stay, hstay, hcount⟩ := h.stays n m hold
      refine ⟨_, hstay.append (h.not_shifts hold hm rfl hmoved), ?_⟩
      have hnone : (s.step now c).answer.deliveries.countP (·.id = some m.id) = 0 :=
        List.countP_eq_zero.mpr fun d hd => by simpa using hdelivered d hd
      rw [deliveriesOf_append, hnone, hcount, Nat.add_zero]
    | sent he hcount hreceipt hdelivered =>
      exact ⟨[], stay_of_brings (.inl ⟨_, he, rfl, rfl⟩), hcount⟩
    | delivered m₀ q receipt ends hq hold hlimit hd heq hmoved =>
      obtain ⟨stay, hstay, hcount⟩ := h.stays n m₀ ⟨q, hq, hold⟩
      have hid : m₀.id = m.id := by rw [heq]; rfl
      rw [hid] at hstay hcount
      refine ⟨_, hstay.append (h.not_shifts ⟨q, hq, hold⟩ hm hid hmoved), ?_⟩
      have hmore : m.count = m₀.count + 1 := by rw [heq]; rfl
      rw [deliveriesOf_append, h.deliveriesOf_step hd rfl, hmore, hcount]
    | moved m₀ hmoved heq hdelivered =>
      have hid : m₀.id = m.id := by rw [heq]; rfl
      exact ⟨[], stay_of_brings (.inr ⟨m₀, hmoved, hid⟩), by rw [heq]; rfl⟩
  · cases h.kept.origin h.fresh hb hm with
    | stayed hold hdelivered hmoved => exact h.bounded n m hold rule hsteady.of_append
    -- A message sent or moved here starts at zero.
    | sent he hcount hreceipt hdelivered => omega
    | delivered m₀ q receipt ends hq hold hlimit hd heq hmoved =>
      have hrule : q.redrive = some rule :=
        hsteady _ (List.mem_append_right _ List.mem_cons_self) q hq
      have hmore : m.count = m₀.count + 1 := by rw [heq]; rfl
      -- It was delivered, so it was not exhausted before.
      have hbelow : m₀.count < rule.limit := by simpa [Stored.isExhausted, hrule] using hlimit
      omega
    | moved m₀ hmoved heq hdelivered =>
      have hzero : m.count = 0 := by rw [heq]; rfl
      omega

end Staying

/-- The stays are known after any calls to a new store of which none breaks off. -/
theorem staying_run (h : s.Unused) (hf : s.mint.Fresh) (xs : List (Nat × StoreCall)) :
    Unbroken (s.steps xs) → Staying (s.steps xs) (s.run xs) :=
  foldl_keeps (P := fun hist s => Unbroken hist → Staying hist s) (fun _ => .of_unused h hf) xs
    fun _ _ _ _ ht hall =>
      (ht (unbroken_append.mp hall).1).step (unbroken_append.mp hall).2

/-! ## Deliveries and moves -/

/-- How often messages are delivered and when they are moved. -/
structure Rationed (hist : List StoreStep) : Prop where
  /-- One call delivers a message once. -/
  once : ∀ x ∈ hist, (x.answer.deliveries.map (·.id)).Nodup
  /-- A delivery reports its number since the message came to the queue, and the redrive rule
      allows that many. -/
  delivered : ∀ before x later, hist = before ++ x :: later → ∀ d ∈ x.answer.deliveries,
    ∃ n i stay, d ∈ x.handed n ∧ d.id = some i ∧ Stay n i before stay ∧
      (deliveriesOf i stay + 1 < size32 → d.receiveCount = some (deliveriesOf i stay + 1)) ∧
      ∀ rule, Steady hist n (some rule) → deliveriesOf i stay + 1 ≤ rule.limit
  /-- A message is moved by a receive call that finds it visible, after just as many deliveries
      as the redrive rule allows. -/
  moved : ∀ before x later, hist = before ++ x :: later → ∀ m ∈ x.moved,
    ∃ r n q rule stay, x.call = .take r ∧ x.before.at? r.destination = .ok (n, q) ∧
      q.redrive = some rule ∧ m ∈ q.messages ∧ m.visibleAt ≤ x.now ∧ Stay n m.id before stay ∧
      (Steady hist n (some rule) → deliveriesOf m.id stay = rule.limit) ∧
      x.Brings rule.deadLetters m.id
  /-- What is moved stands last in the dead-letter queue, visible and as if never delivered. -/
  buried : ∀ x ∈ hist, ∀ r n q rule, x.call = .take r → x.before.at? r.destination = .ok (n, q) →
    q.redrive = some rule → ∃ w, x.after.queues.get? rule.deadLetters = some w ∧
      ∃ rest, w.messages = rest ++ x.moved.map fun m =>
        { m with visibleAt := x.now, count := 0, receipt := none }

/-- A delivery reports its number in the stay of the message. -/
private theorem Staying.delivered (h : Staying hist s) {d : Delivery}
    (hd : d ∈ (s.step now c).answer.deliveries) :
    ∃ n i stay, d ∈ (s.step now c).handed n ∧ d.id = some i ∧ Stay n i hist stay ∧
      (deliveriesOf i stay + 1 < size32 → d.receiveCount = some (deliveriesOf i stay + 1)) ∧
      ∀ rule, Steady (hist ++ [s.step now c]) n (some rule) →
        deliveriesOf i stay + 1 ≤ rule.limit := by
  -- What is handed out is stored, and its count is that of the deliveries of its stay.
  obtain ⟨n, hn⟩ := LeaseStore.exists_mem_handed hd
  obtain ⟨m, q, receipt, ends, hq, hm, -, hlimit, rfl, -⟩ := LeaseStore.stores_of_mem_handed hn
  obtain ⟨stay, hstay, hcount⟩ := h.stays n m ⟨q, hq, hm⟩
  refine ⟨n, m.id, stay, hn, rfl, hstay, fun hfits => ?_, fun rule hsteady => ?_⟩
  · rw [← hcount] at hfits ⊢
    exact Stored.receiveCount_delivery (m := m.deliver receipt ends) hfits
  · have hrule : q.redrive = some rule :=
      hsteady _ (List.mem_append_right _ List.mem_cons_self) q hq
    have hbelow : m.count < rule.limit := by simpa [Stored.isExhausted, hrule] using hlimit
    omega

/-- A move ends the stay of a message that was delivered as often as its queue allows. -/
private theorem Staying.moved (h : Staying hist s) (hm : m ∈ (s.step now c).moved) :
    ∃ r n q rule stay, c = .take r ∧ s.at? r.destination = .ok (n, q) ∧
      q.redrive = some rule ∧ m ∈ q.messages ∧ m.visibleAt ≤ now ∧ Stay n m.id hist stay ∧
      (Steady (hist ++ [s.step now c]) n (some rule) → deliveriesOf m.id stay = rule.limit) ∧
      (s.step now c).Brings rule.deadLetters m.id := by
  obtain ⟨r, n, q, rule, rfl, hat, hrule, hmem, hvisible, hlimit⟩ :=
    LeaseStore.exists_take_of_mem_moved hm
  have hstores : s.Stores n m := ⟨q, (LeaseStore.at?_eq_ok.mp hat).2, hmem⟩
  obtain ⟨stay, hstay, hcount⟩ := h.stays n m hstores
  refine ⟨r, n, q, rule, stay, rfl, hat, hrule, hmem, by simpa [Stored.isVisible] using hvisible,
    hstay, fun hsteady => ?_, ?_⟩
  · -- Until now it was delivered at most as often as the rule allows, and it is exhausted.
    have hbound := h.bounded n m hstores rule hsteady.of_append
    omega
  · exact .inr ⟨m, LeaseStore.mem_movedTo hat hrule hm, rfl⟩

/-- Deliveries are rationed among any calls to a new store of which none breaks off. -/
private theorem rationed_steps (h : s.Unused) (hf : s.mint.Fresh) (xs : List (Nat × StoreCall))
    (hunbroken : Unbroken (s.steps xs)) : Rationed (s.steps xs) := by
  -- Every step of the run starts from a store of which the stays are known.
  have hcuts : ∀ before x later, s.steps xs = before ++ x :: later →
      ∃ t now c, x = LeaseStore.step t now c ∧ Staying before t := by
    intro before x later hcut
    obtain ⟨ys, y, rfl, rfl⟩ := noted_eq_append_cons hcut
    have hbefore : Unbroken (s.steps ys) := fun z hz =>
      hunbroken z (hcut ▸ List.mem_append_left _ hz)
    exact ⟨s.run ys, y.1, y.2, rfl, staying_run h hf ys hbefore⟩
  have hsteady : ∀ before x later n rule, s.steps xs = before ++ x :: later →
      Steady (s.steps xs) n rule → Steady (before ++ [x]) n rule := by
    intro before x later n rule hcut hall
    rw [hcut, ← List.singleton_append, ← List.append_assoc] at hall
    exact hall.of_append
  refine ⟨fun x hx => ?_, fun before x later hcut d hd => ?_, fun before x later hcut m hm => ?_,
    fun x hx r n q rule hcall hat hrule => ?_⟩
  · obtain ⟨before, later, hcut⟩ := List.append_of_mem hx
    obtain ⟨t, now, c, rfl, ht⟩ := hcuts _ _ _ hcut
    exact LeaseStore.nodup_deliveries ht.kept ht.fresh now c
  · obtain ⟨t, now, c, rfl, ht⟩ := hcuts _ _ _ hcut
    obtain ⟨n, i, stay, hn, hid, hstay, hcount, hlimit⟩ := ht.delivered hd
    exact ⟨n, i, stay, hn, hid, hstay, hcount,
      fun rule hall => hlimit rule (hsteady _ _ _ _ _ hcut hall)⟩
  · obtain ⟨t, now, c, rfl, ht⟩ := hcuts _ _ _ hcut
    obtain ⟨r, n, q, rule, stay, hcall, hat, hrule, hmem, hvisible, hstay, hlimit, hbrings⟩ :=
      ht.moved hm
    exact ⟨r, n, q, rule, stay, hcall, hat, hrule, hmem, hvisible, hstay,
      fun hall => hlimit (hsteady _ _ _ _ _ hcut hall), hbrings⟩
  · have hb := hunbroken x hx
    obtain ⟨before, later, hcut⟩ := List.append_of_mem hx
    obtain ⟨t, now, c, rfl, ht⟩ := hcuts _ _ _ hcut
    obtain rfl : c = .take r := hcall
    exact LeaseStore.exists_append_moved ht.kept hat hb hrule

/-- A queue is its own dead-letter queue, and a message starts over. -/
def treadmill : List (Nat × Visit) :=
  [(0, .called (.createRedrive "q" ⟨"q", 2⟩)), (0, .called (.send "memory://q" "x" 0)),
    (0, .called (.take ⟨"memory://q", 1, some 10, none⟩)),
    (10, .called (.take ⟨"memory://q", 1, some 10, none⟩)),
    (20, .called (.take ⟨"memory://q", 1, some 10, none⟩)),
    (20, .called (.take ⟨"memory://q", 1, some 10, none⟩))]

/-- A receive call that breaks off comes for a message before the first one that delivers it. -/
def miscounted : List (Nat × Visit) :=
  [(0, .called (.create "q")), (0, .called (.send "memory://q" "x" 0)),
    (0, .called (.take ⟨"memory://q", 1, some 9223372036854775807000, none⟩)),
    (0, .called (.take ⟨"memory://q", 1, some 10, none⟩))]

end Intake
