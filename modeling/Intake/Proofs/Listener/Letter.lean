import Intake.Proofs.Listener.Deletion
import Intake.Proofs.Listener.Prompt
import Intake.Proofs.Table
import Intake.Rehearsal.Scene

/-!
# What a handler gets to see

The headers of a letter come from several sources, and a later one goes over the earlier ones:
what the broker says, what the sender says, and what the listener knows itself.  So no attribute
of a message takes the place of the name of the queue, of the receipt, or of an identifier that
the broker gave.

- `Letter.Presents`: a letter shows a delivery from a source
- `presents_letter`: the letter that is made of a delivery shows it
- `presented_run`: so does each letter with which a handler is called in a run
-/

namespace Intake

/-- A letter shows a delivery from a source. -/
structure Letter.Presents (l : Letter) (s : Source) (d : Delivery) : Prop where
  payload : l.payload = d.body
  queue : l.headers.get? queueHeader = some s.name
  receipt : l.headers.get? receiptHeader = some d.receipt
  id : ∀ i, d.id = some i → l.headers.get? idHeader = some i
  /-- Under any other name stands what the sender says, or else what the broker says.  The name
      of the identifier is such a name where the broker gave none. -/
  others : ∀ k, k ≠ queueHeader → k ≠ receiptHeader → (k = idHeader → d.id = none) →
    l.headers.get? k = (d.attributes.get? k).or (d.systemAttributes.get? k)
  /-- There is an acknowledgment where nothing else deletes. -/
  acknowledgment : l.acknowledgment.isSome ↔ s.options.policy = .never
  /-- To acknowledge is to delete this delivery from where the source is. -/
  deletes : s.options.policy = .never → ∀ (scene : Scene) (now : Nat) (h : Handling),
    h.letter = l → ∀ result after, scene.delete now s.destination d.receipt = (result, after) →
      scene.acknowledge now h = (result.mapError fun e => .unexpected e.message, after)
  /-- Where there is no acknowledgment nothing is deleted. -/
  refuses : s.options.policy ≠ .never → ∀ (scene : Scene) (now : Nat) (h : Handling),
    h.letter = l → scene.acknowledge now h = (.error (.processing "no acknowledgment"), scene)

namespace Source

variable {d : Delivery} {k : String}

/-- What stands in the headers under a name: a reserved one goes over the sender's, and the
    sender's over the broker's. -/
private theorem get?_headers (h : d.attributes.names.Nodup) (s : Source) (k : String) :
    (s.headers d).get? k =
      if k = idHeader ∧ d.id.isSome then d.id
      else if k = receiptHeader then some d.receipt
      else if k = queueHeader then some s.name
      else (d.attributes.get? k).or (d.systemAttributes.get? k) := by
  -- From the inside out: the message's own attributes, then the reserved names.
  have hattributes : (d.systemAttributes.setAll d.attributes.entries).get? k =
      (d.attributes.get? k).or (d.systemAttributes.get? k) := Table.get?_setAll h _ k
  have hreserved : (((d.systemAttributes.setAll d.attributes.entries).set queueHeader s.name).set
      receiptHeader d.receipt).get? k = if k = receiptHeader then some d.receipt
        else if k = queueHeader then some s.name
        else (d.attributes.get? k).or (d.systemAttributes.get? k) := by
    rw [Table.get?_set, Table.get?_set, hattributes]
  unfold headers
  cases hid : d.id with
  | none =>
    rw [if_neg (by simp)]
    exact hreserved
  | some i =>
    dsimp only
    rw [Table.get?_set, hreserved]
    simp only [Option.isSome_some, and_true]

/-- The letter that is made of a delivery shows it. -/
theorem presents_letter (h : d.attributes.names.Nodup) (s : Source) :
    (s.letter d).Presents s d where
  payload := rfl
  queue := (get?_headers h s queueHeader).trans (by simp [queueHeader, idHeader, receiptHeader])
  receipt := (get?_headers h s receiptHeader).trans (by simp [idHeader, receiptHeader])
  id i hi := (get?_headers h s idHeader).trans (by simp [hi])
  -- A name that is not reserved comes from the attributes.
  others k hqueue hreceipt hid := by
    have hnone : ¬ (k = idHeader ∧ d.id.isSome) := by
      rintro ⟨hk, hsome⟩
      rw [hid hk] at hsome
      cases hsome
    show (s.headers d).get? k = _
    rw [get?_headers h, if_neg hnone, if_neg hreceipt, if_neg hqueue]
  acknowledgment := by
    show (s.acknowledgment? d).isSome ↔ _
    unfold acknowledgment?
    split <;> simp [*]
  deletes hnever scene now handling hletter result after hdelete := by
    have hgiven : handling.letter.acknowledgment = some ⟨s.name, s.destination, d.receipt⟩ := by
      rw [hletter]
      exact if_pos hnever
    cases result <;> simp [Scene.acknowledge, hgiven, hdelete, Except.mapError]
  refuses hnever scene now handling hletter := by
    have hnone : handling.letter.acknowledgment = none := by
      rw [hletter]
      exact if_neg hnever
    rw [Scene.acknowledge, hnone]

end Source

namespace Listener

variable {l b : Listener} {hist : List Step} {n : Nat}

/-- What a poller has received was in a batch that was fed to the run. -/
private theorem exists_batch_of_mem_received {p : PollerId} {d : Delivery}
    {xs : List (Nat × Stimulus)} (h : d ∈ received p (l.steps xs)) :
    ∃ x ∈ xs, ∃ ds, x.2 = .answer p (.batch ds) ∧ d ∈ ds := by
  obtain ⟨x, hx, hd⟩ := List.mem_flatMap.mp h
  obtain ⟨before, later, hcut⟩ := List.append_of_mem hx
  obtain ⟨ys, now, s, zs, rfl, -, rfl, -⟩ := exists_cut_of_steps hcut
  obtain ⟨ds, hs, hmem⟩ := eq_answer_of_mem_receivedBy hd
  exact ⟨(now, s), List.mem_append_right _ List.mem_cons_self, ds, hs, hmem⟩

/-- In every run of every listener that was built each handler is called with a letter that shows
    a delivery which a poller of its queue has received. -/
theorem presented_run {σ : Type} (k : Lookup σ) (settings : ListenerSettings) (polling : Polling)
    (handler : String) (rs : List Registration) (s : σ) (xs : List (Nat × Stimulus))
    (hplain : ∀ x ∈ xs, ∀ p ds, x.2 = .answer p (.batch ds) →
      ∀ d ∈ ds, d.attributes.names.Nodup) :
    let b := (build k settings polling handler rs s).1
    ∀ x ∈ b.steps xs, ∀ n h letter, .invoke n h letter ∈ x.effects →
      ∃ j ∈ works (b.steps xs), ∃ st, j.number = n ∧ b.station? j.queue = some st ∧
        st.source.name = j.queue ∧ h = st.handler ∧
        (∃ p : PollerId, p.queue = j.queue ∧ j.delivery ∈ received p (b.steps xs)) ∧
        letter.Presents st.source j.delivery := by
  intro b x hx n h letter hmem
  obtain ⟨ys, now, s', later, rfl, hcut⟩ := exists_run_of_mem_steps hx
  have hledger : ∀ ys, Ledger b (b.steps ys) (b.run ys) := ledger_run k settings polling handler rs s
  obtain ⟨j, hj, st, hn, hst, hh, hletter⟩ := (hledger ys).invoked hmem
  -- The messages that were taken before this step are among all of the run.
  have hwork : j ∈ works (b.steps xs) := by
    rw [hcut, works, passed, List.flatMap_append, List.filterMap_append]
    exact List.mem_append_left _ hj
  obtain ⟨p, hp, hreceived⟩ := (hledger xs).received hwork
  obtain ⟨y, hy, ds, hanswer, hd⟩ := exists_batch_of_mem_received hreceived
  have hname : st.source.name = j.queue := (station?_eq_some hst).2
  refine ⟨j, hwork, st, hn, hst, hname, hh, ⟨p, hp, hreceived⟩, ?_⟩
  rw [hletter]
  exact Source.presents_letter (hplain y hy p ds hanswer _ hd) st.source

/-- The sender claims to be another queue, another delivery and another message, and says
    something else than the broker. -/
def impostor : Delivery :=
  { id := some "m", receipt := "r", body := "x"
    systemAttributes := .ofList [("SenderId", "broker"), ("SentTimestamp", "5")]
    attributes := .ofList [(queueHeader, "other"), (receiptHeader, "other"), (idHeader, "other"),
      ("SenderId", "sender")] }

/-- A message that pretends to be of another queue, and to have another identity. -/
theorem presented_run_impostor :
    let b := (build Lookup.verbatim .standard .bySlots "h"
      [⟨"q", { QueueOptions.standard with policy := .never }, none⟩] ()).1
    let xs : List (Nat × Stimulus) := [(0, .start 0 "q"), (0, .goOn ⟨"q", 1⟩),
      (1, .answer ⟨"q", 1⟩ (.batch [impostor])), (1, .beginJob 0)]
    (∀ x ∈ xs, ∀ p ds, x.2 = .answer p (.batch ds) → ∀ d ∈ ds, d.attributes.names.Nodup) ∧
      ∃ x ∈ b.steps xs, ∃ letter, .invoke 0 "h" letter ∈ x.effects ∧
        letter.headers.get? queueHeader = some "q" ∧ letter.headers.get? idHeader = some "m" ∧
        letter.headers.get? "SenderId" = some "sender" ∧
        letter.headers.get? "SentTimestamp" = some "5" ∧
        ∃ j ∈ works (b.steps xs), ∃ st, j.number = 0 ∧ b.station? j.queue = some st ∧
          letter.Presents st.source j.delivery := by
  intro b xs
  have hplain : ∀ x ∈ xs, ∀ p ds, x.2 = .answer p (.batch ds) →
      ∀ d ∈ ds, d.attributes.names.Nodup := by
    intro x hx p ds hanswer d hd
    simp only [xs, List.mem_cons, List.not_mem_nil, or_false] at hx
    rcases hx with rfl | rfl | rfl | rfl <;> cases hanswer
    rw [List.mem_singleton.mp hd]
    decide
  -- The handler is called by the fourth step.
  have hx : (b.run (xs.take 3)).step 1 (.beginJob 0) ∈ b.steps xs :=
    .tail _ (.tail _ (.tail _ (.head _)))
  obtain ⟨letter, hmem, hheaders⟩ : ∃ letter,
      .invoke 0 "h" letter ∈ ((b.run (xs.take 3)).step 1 (.beginJob 0)).effects ∧
        letter.headers.get? queueHeader = some "q" ∧ letter.headers.get? idHeader = some "m" ∧
        letter.headers.get? "SenderId" = some "sender" ∧
        letter.headers.get? "SentTimestamp" = some "5" :=
    ⟨_, .head _, by decide⟩
  obtain ⟨j, hj, st, hn, hst, -, -, -, hpresents⟩ :=
    presented_run Lookup.verbatim .standard .bySlots "h" _ () xs hplain _ hx 0 "h" letter hmem
  obtain ⟨hq, hid, hsender, hsent⟩ := hheaders
  exact ⟨hplain, _, hx, letter, hmem, hq, hid, hsender, hsent, j, hj, st, hn, hst, hpresents⟩

end Listener

end Intake
