import OutboxCluster.Proofs.Watch

/-!
# How much a Worker may still do

A worker is three loops in one another, and many of its waits may be over at once: a full
batch is followed by the next cycle without a rest, and by the next batch without a cycle. So
nothing in the order of its waits says that it comes to rest before time goes on. What runs
out are the rows. A full batch that is deleted takes as many of them as a batch can hold, and
every other end of a cycle is followed by a rest of some time.

This is said by a measure of what the worker may still do at this instant. `cyclesLeft` is
paid for by the rows of the outbox: a search that finds a full batch leaves fewer of them, so
what the batch is worth is set aside when it is found, and a batch that was kept from an
earlier instant, whose rows may be gone, has one cycle to its own credit. A pulse puts off
the next one, so there is one at most (`pulsesLeft`). Every cycle and every pulse is worth
eight turns, and between them each wait leads to one of a lower rank (`turnsLeft`).

What a cycle may do does not depend on the instant. It may ask the sink as often as it may hand
on batches in a row. `asksLeft` is what is left of that, and what was asked before stands in the
journal, up to the entry with which the cycle began (`Journal.cycle`).

`Fits` says of a part of a turn how much it may use of all this. Each part has one law, and
`resume_fits` puts them together: a turn that is due uses no more than there was, and leaves
fewer turns than before.

## Main definitions

* `Entry.isCycle`, `Entry.isBeat`, `Entry.isAsk`: What is counted.
* `Journal.cycle`, `Journal.asks`: What was entered in a cycle, and how often the sink was asked.
* `Worker.cyclesLeft`, `pulsesLeft`, `asksLeft`, `turnsLeft`: What a worker may still do.
* `Worker.Poised`: What is known while a worker waits.
* `Worker.Pauses`, `Completes`, `Closes`: How a cycle ends, and when the next one begins.
* `Scene.Fits`: How much a part of a turn may use.

## Theorems

* `Outbox.length_delete_search`: What a search leaves of the rows.
* `wait_race_ne`: A worker that looks at its sink, and something is there, takes it up.
* `resume_fits`: A turn uses no more than there was, and leaves fewer turns.
-/

namespace OutboxCluster

namespace Entry

/-- The worker begins a cycle. -/
def isCycle (who : String × String) : Entry → Bool
  | .cycleBegan stamp => stamp.post == who
  | _ => false

/-- The worker pulses or renews its lease. -/
def isBeat (who : String × String) : Entry → Bool
  | .pulsed stamp | .renewed stamp => stamp.post == who
  | _ => false

/-- The worker gives a batch to its sink. -/
def isAsk (who : String × String) : Entry → Bool
  | .began stamp _ _ => stamp.post == who
  | _ => false

/-- An entry that counts for nothing and ends no cycle. -/
def isPlain : Entry → Bool
  | .pulsed _ | .renewed _ | .cycleBegan _ | .cycleEnded .. | .began .. => false
  | _ => true

theorem not_counted_of_isPlain {e : Entry} (h : e.isPlain = true) (who : String × String) :
    e.isCycle who = false ∧ e.isBeat who = false ∧ e.isAsk who = false := by
  cases e <;> simp_all [isPlain, isCycle, isBeat, isAsk]

end Entry

namespace Journal

variable {P : Entry → Prop} {who : String × String} {e : Entry} {j j' j'' : Journal}

theorem Adds.countP_eq (h : Adds P j j') {p : Entry → Bool} (hp : ∀ e, P e → p e = false) :
    j'.countP p = j.countP p := by
  rcases h with ⟨es, rfl, hes⟩
  rw [List.countP_append, List.countP_eq_zero.mpr fun e he => by simp [hp e (hes e he)],
    Nat.zero_add]

/-- What was entered since a worker began its last cycle. -/
def cycle (who : String × String) (j : Journal) : Journal := j.takeWhile fun e => ! e.isCycle who

/-- How often a worker has given a batch to its sink since it began its last cycle. -/
def asks (who : String × String) (j : Journal) : Nat := (j.cycle who).countP (·.isAsk who)

theorem cycle_append (es : List Entry) : cycle who (es ++ j) =
    if es.any (·.isCycle who) then cycle who es else es ++ j.cycle who := by
  induction es with
  | nil => rfl
  | cons e es ih =>
      unfold cycle at ih ⊢
      -- Where a cycle begins the walk back through the journal ends.
      cases he : e.isCycle who with
      | true => simp [he]
      | false =>
          simp only [List.cons_append, List.takeWhile_cons, List.any_cons, he, Bool.not_false,
            if_true, Bool.false_or, ih]
          split <;> rfl

theorem asks_append (es : List Entry) : asks who (es ++ j) =
    if es.any (·.isCycle who) then asks who es else asks who es + j.asks who := by
  unfold asks
  rw [cycle_append]
  split
  · rfl
  · rename_i hnone
    -- None of the new entries begins a cycle, so they all belong to the one before.
    have hall : cycle who es = es := by
      have happend : cycle who (es ++ []) = _ := cycle_append es
      rw [if_neg hnone, List.append_nil] at happend
      exact happend.trans (List.append_nil es)
    rw [List.countP_append, hall]

/-- A worker that may still ask its sink `before` times in its cycle has done so, and may do so
    `after` times. If it has begun another cycle, it may do so `most` times in that one. -/
def Spends (who : String × String) (most : Nat) (j j' : Journal) (before after : Nat) : Prop :=
  ∃ es, j' = es ++ j ∧
    asks who es + after ≤ if es.any (·.isCycle who) then most else before

namespace Spends

variable {most before after rest : Nat}

theorem refl (hle : after ≤ before) : Spends who most j j before after :=
  ⟨[], rfl, by simpa [asks, cycle] using hle⟩

/-- Neither a cycle nor the sink is concerned. -/
theorem of_adds (h : Adds P j j') (hP : ∀ e, P e → e.isCycle who = false ∧ e.isAsk who = false) :
    Spends who most j j' before before := by
  rcases h with ⟨es, rfl, hes⟩
  have hnone : es.any (·.isCycle who) = false :=
    List.any_eq_false.mpr fun e he => by simp [hP e (hes e he)]
  have hasks : asks who es = 0 := by
    refine List.countP_eq_zero.mpr fun e he => ?_
    simp [hP e (hes e ((List.takeWhile_sublist _).subset he))]
  exact ⟨es, rfl, by simp [hnone, hasks]⟩

/-- The sink is asked. -/
theorem ask (hcycle : e.isCycle who = false) :
    Spends who most j (e :: j) (before + 1) before := by
  refine ⟨[e], rfl, ?_⟩
  have hone : asks who [e] ≤ 1 :=
    List.countP_le_length.trans (List.takeWhile_sublist _).length_le
  simp only [List.any_cons, List.any_nil, hcycle, Bool.or_false, Bool.false_eq_true, if_false]
  omega

/-- A cycle begins. -/
theorem begun (hcycle : e.isCycle who = true) : Spends who most j (e :: j) before most :=
  ⟨[e], rfl, by simp [asks, cycle, hcycle]⟩

theorem trans (h : Spends who most j j' before after) (h' : Spends who most j' j'' after rest) :
    Spends who most j j'' before rest := by
  rcases h with ⟨es, rfl, hle⟩
  rcases h' with ⟨es', rfl, hle'⟩
  refine ⟨es' ++ es, (List.append_assoc _ _ _).symm, ?_⟩
  rw [asks_append, List.any_append]
  cases hbegan : es'.any (·.isCycle who) with
  | true =>
      -- What was entered before the cycle began does not count any more.
      rw [hbegan] at hle'
      exact hle'
  | false =>
      rw [hbegan] at hle'
      simp only [Bool.false_eq_true, if_false, Bool.false_or] at hle' ⊢
      omega

/-- Who was in no cycle has asked in its last one no more often than it may. -/
theorem asks_le (h : Spends who most j j' 0 after) : ∃ es, j' = es ++ j ∧ asks who es ≤ most := by
  rcases h with ⟨es, heq, hle⟩
  refine ⟨es, heq, ?_⟩
  split at hle <;> omega

end Spends

end Journal

/-- A batch that was found leaves so many rows fewer. -/
theorem Outbox.length_delete_search {t : Outbox} {assignment : Option Assignment} {limit : Nat}
    {events : List OutboxEvent} (h : t.search assignment limit = .ok events) :
    (t.delete (events.map (·.id))).rows.length + events.length ≤ t.rows.length := by
  have hfound : ((t.pending assignment).take limit).Sublist
      (t.rows.filter fun row => (events.map (·.id)).contains row.1) := by
    -- A row that was found is pending, and its id is one of those that were found.
    have hids : ∀ row ∈ (t.pending assignment).take limit,
        (events.map (·.id)).contains row.1 = true := by
      intro row hrow
      rw [Outbox.ids_search h, List.contains_eq_mem, decide_eq_true_iff]
      exact List.mem_map_of_mem hrow
    rw [← List.filter_eq_self.mpr hids]
    exact ((List.take_sublist _ _).trans List.filter_sublist).filter _
  have hlength : events.length = ((t.pending assignment).take limit).length := by
    rw [Outbox.length_search h, List.length_take]
  have hsplit := List.length_eq_length_filter_add (l := t.rows)
    fun row => (events.map (·.id)).contains row.1
  have hrows : (t.delete (events.map (·.id))).rows =
      t.rows.filter fun row => ! (events.map (·.id)).contains row.1 := rfl
  rw [hrows]
  have hle := hfound.length_le
  omega

namespace Worker

variable (w : Worker) (now : Nat) (t : Outbox)

/-- How many full batches the rows make up. -/
def loads : Nat := t.rows.length / w.settings.batchSize

/-- How many cycles may follow one that begins: one for every full batch, and one for a batch that
    is kept. -/
def credit : Nat := w.loads t + if w.retained.isSome then 1 else 0

/-- How many cycles may follow a batch whose events are deleted, so that these rows are left. -/
def cyclesAfter (batch : Batch) : Nat :=
  if w.settings.batchSize ≤ batch.events.length then 1 + w.loads t else 0

/-- How many cycles may follow a rest. -/
def cyclesDue : Nat := if w.nextCycle ≤ now then 1 + w.credit t else 0

/-- How many cycles the worker may still begin at this instant. -/
def cyclesLeft : Nat :=
  match w.wait with
  | .held | .launched => 1 + w.credit t
  | .resting _ | .pulsing .. => w.cyclesDue now t
  | .polling .. => w.loads t
  | .applying h | .renewing _ _ _ h | .deleting _ h =>
    w.cyclesAfter (t.delete h.batch.ids) h.batch
  | .deleted _ _ h => w.cyclesAfter t h.batch
  | .leaving .. | .over _ => 0

/-- Whether a pulse is due. -/
def pulsesDue : Nat := if w.nextPulse ≤ now then 1 else 0

/-- How many pulses and renewals the worker may still make at this instant. -/
def pulsesLeft : Nat :=
  match w.wait with
  | .pulsing .. | .renewing .. => 1
  | .leaving .. | .over _ => 0
  | _ => w.pulsesDue now

/-- How often the worker may still give a batch to its sink before the next cycle. -/
def asksLeft : Nat :=
  match w.wait with
  | .polling _ cycle => w.settings.maxConsecutiveBatches - cycle.batches
  | .applying h | .renewing _ _ _ h =>
    w.settings.maxConsecutiveBatches - h.cycle.batches - if h.ongoing.isSome then 1 else 0
  | .deleting _ h | .deleted _ _ h => w.settings.maxConsecutiveBatches - h.cycle.batches - 1
  | _ => 0

/-- How far a wait is from the end of a cycle. -/
def rank : Nat :=
  match w.wait with
  | .over _ => 0
  | .leaving .. => 1
  | .pulsing .. => 2
  | .held | .launched | .resting _ => 3
  | .deleted .. => 4
  | .deleting .. | .renewing .. => 5
  | .applying h => if h.ongoing.isSome then 6 else 7
  | .polling .. => 8

/-- Whether there is a request that the worker has not seen. -/
def unseen (signal : Signal) : Nat := if w.seen = signal.version then 0 else 1

/-- How many turns the worker may still take at this instant. -/
def turnsLeft (signal : Signal) : Nat :=
  8 * (w.cyclesLeft now t + w.pulsesLeft now) + w.rank + w.unseen signal

/-- What is known while a worker waits: its rest ends with the next cycle or pulse, and a cycle
    that is under way has not done as many batches as it may. -/
def Poised : Prop :=
  match w.wait with
  | .resting wake => wake = min w.nextCycle w.nextPulse
  | .polling _ cycle => cycle.batches < w.settings.maxConsecutiveBatches
  | .applying h | .renewing _ _ _ h | .deleting _ h | .deleted _ _ h =>
    h.cycle.batches < w.settings.maxConsecutiveBatches
  | _ => True

/-- The worker comes to rest in no cycle, and goes on from there. -/
def Loops : Prop := w.wait = .launched ∨ w.Rests

/-- With fewer rows there are no more full batches. -/
theorem loads_mono {t t' : Outbox} (hle : t'.rows.length ≤ t.rows.length) :
    w.loads t' ≤ w.loads t :=
  Nat.div_le_div_right hle

/-- A batch calls for no more cycles than the rows do, and one more. -/
theorem cyclesAfter_le (ids : List Int) (batch : Batch) :
    w.cyclesAfter (t.delete ids) batch ≤ 1 + w.loads t := by
  have hle : w.loads (t.delete ids) ≤ w.loads t := w.loads_mono (List.length_filter_le _ _)
  unfold cyclesAfter
  split <;> omega

variable {w now t} {w' : Worker}

/-- The agent may not process, and the worker looks again later. -/
def Skipped (w : Worker) (now : Nat) (w' : Worker) (wait : Nat) : Prop :=
  wait = w.settings.pollingInterval ∧ w'.link.snapshot.canProcess now = false

/-- A batch is given up, as the agent may not process. -/
def Lost (w : Worker) (now : Nat) (w' : Worker) (wait : Nat) : Prop :=
  w.Skipped now w' wait ∧
    w'.stats = { w.stats with discardedBatches := w.stats.discardedBatches + 1 }

/-- A batch has failed, and is tried again. -/
def Failed (w w' : Worker) (wait : Nat) : Prop :=
  wait = w.settings.retryWait ∧
    w'.stats = { w.stats with failedAttempts := w.stats.failedAttempts + 1 }

/-- How a cycle ends in a turn from `w` to `w'`, other than with a full batch, and after how many
    milliseconds the next one begins. -/
inductive Pauses (w : Worker) (now : Nat) (w' : Worker) : Nat → Prop where
  /-- The agent may not process, so the cycle ends as it begins. -/
  | skipped {wait : Nat} : w.Loops → w.Skipped now w' wait → Pauses w now w' wait
  /-- The search has found nothing, or it has failed. -/
  | fruitless {due : Nat} {cycle : Cycle} : w.wait = .polling due cycle → w'.stats = w.stats →
      Pauses w now w' w.settings.pollingInterval
  | lost {wait : Nat} : w.Lost now w' wait → Pauses w now w' wait
  | failed {wait : Nat} : w.Failed w' wait → Pauses w now w' wait
  /-- The batch is done, and it was not full. -/
  | short {due count : Nat} {h : Handover} : w.wait = .deleted due count h → due ≤ now →
      h.batch.events.length < w.settings.batchSize →
      w'.stats.batchesApplied = w.stats.batchesApplied + 1 →
      Pauses w now w' w.settings.pollingInterval

/-- In its turn the worker hears that the events of the batch, a full one, were deleted. -/
def Completes (w : Worker) (now : Nat) (batch : Batch) (w' : Worker) : Prop :=
  ∃ due count h, w.wait = .deleted due count h ∧ h.batch = batch ∧ due ≤ now ∧
    w.settings.batchSize ≤ batch.events.length ∧
    w'.stats.batchesApplied = w.stats.batchesApplied + 1

/-- How a cycle ends, and after how many milliseconds the next one begins. -/
inductive Closes (w : Worker) (now : Nat) (w' : Worker) : Nat → Prop where
  | pauses {wait : Nat} : w.Pauses now w' wait → Closes w now w' wait
  /-- The last batch was full, and nothing else has ended the cycle. -/
  | completes {batch : Batch} : w.Completes now batch w' → Closes w now w' 0

theorem Pauses.pos {now wait : Nat} (h : w.Pauses now w' wait) (hpositive : w.settings.Positive) :
    0 < wait := by
  cases h with
  | fruitless _ _ | short _ _ _ _ => exact hpositive.pollingInterval
  | skipped _ hskipped => exact hskipped.1 ▸ hpositive.pollingInterval
  | lost hlost => exact hlost.1.1 ▸ hpositive.pollingInterval
  | failed hfailed => exact hfailed.1 ▸ hpositive.retryWait

/-- A cycle does not end in both ways. -/
theorem Pauses.not_completes {now wait : Nat} (h : w.Pauses now w' wait) (batch : Batch) :
    ¬ w.Completes now batch w' := by
  rintro ⟨due, count, hand, hwait, rfl, -, hfull, happlied⟩
  cases h with
  | skipped hloops _ =>
      rcases hloops with hwait' | ⟨_, hwait'⟩ | ⟨_, _, _, hwait'⟩ <;>
        cases hwait.symm.trans hwait'
  | fruitless hwait' _ => cases hwait.symm.trans hwait'
  | lost hlost =>
      rw [hlost.2] at happlied
      exact Nat.succ_ne_self _ happlied.symm
  | failed hfailed =>
      rw [hfailed.2] at happlied
      exact Nat.succ_ne_self _ happlied.symm
  | short hwait' _ hshort _ =>
      obtain ⟨-, -, rfl⟩ := Wait.deleted.inj (hwait.symm.trans hwait')
      omega

/-- A cycle that pauses does so for some time, and without a rest the last batch was a full one. -/
theorem Closes.outcome {now wait : Nat} (h : w.Closes now w' wait)
    (hpositive : w.settings.Positive) :
    (∀ n, w.Pauses now w' n → 0 < wait) ∧ (wait = 0 → ∃ batch, w.Completes now batch w') := by
  cases h with
  | pauses hpauses =>
      have hpos := hpauses.pos hpositive
      exact ⟨fun _ _ => hpos, fun hzero => absurd hzero (Nat.ne_of_gt hpos)⟩
  | completes hcompletes =>
      exact ⟨fun _ hpauses => absurd hcompletes (hpauses.not_completes _),
        fun _ => ⟨_, hcompletes⟩⟩

end Worker

/-- Something that the worker waits for at its sink is there. The sink is there to be asked. -/
def Branch.There (s : Scene) (h : Handover) : Branch → Prop
  | .sink => ∀ due ending, h.ongoing = some (due, ending) → due ≤ s.now
  | .renewal => s.worker.nextPulse ≤ s.now
  | .deadline => s.worker.link.snapshot.leaseDeadline.any (· ≤ s.now) = true
  | .timeout => h.timeoutAt.any (· ≤ s.now) = true

namespace Scene

/-- How much is used from `s` to `s'`, and is left afterwards. At most so many cycles begin, so
    many pulses and renewals are made, so many turns are left, and the sink is asked so often in
    this cycle, or up to `most` times in a new one. A cycle that ends is followed by one of the
    `waits`. -/
structure Fits (who : String × String) (most : Nat) (σ : Signal) (s s' : Scene)
    (cycles pulses turns asks : Nat) (waits : Worker → Nat → Prop) : Prop where
  cycles : s'.journal.countP (·.isCycle who) + s'.worker.cyclesLeft s'.now s'.outbox ≤
    s.journal.countP (·.isCycle who) + cycles
  pulses : s'.journal.countP (·.isBeat who) + s'.worker.pulsesLeft s'.now ≤
    s.journal.countP (·.isBeat who) + pulses
  turns : s'.worker.turnsLeft s'.now s'.outbox σ ≤ turns
  asks : Journal.Spends who most s.journal s'.journal asks s'.worker.asksLeft
  ends : Journal.Adds (fun e => ∀ stamp wait, e = .cycleEnded stamp wait →
    s'.worker.nextCycle = s'.now + wait ∧ waits s'.worker wait) s.journal s'.journal
  poised : s'.worker.Poised

section Parts

variable {who : String × String} {most : Nat} {σ : Signal} {s s₁ s' : Scene}
  {cycles pulses turns asks : Nat} {waits : Worker → Nat → Prop} {h : Handover}

/-- More may be used than is. -/
theorem Fits.mono (hfits : Fits who most σ s s' cycles pulses turns asks waits)
    {cycles' pulses' turns' asks' : Nat} {waits' : Worker → Nat → Prop} (hcycles : cycles ≤ cycles')
    (hpulses : pulses ≤ pulses') (hturns : turns ≤ turns') (hasks : asks ≤ asks')
    (hwaits : ∀ wait, waits s'.worker wait → waits' s'.worker wait) :
    Fits who most σ s s' cycles' pulses' turns' asks' waits' where
  cycles := Nat.le_trans hfits.cycles (by omega)
  pulses := Nat.le_trans hfits.pulses (by omega)
  turns := Nat.le_trans hfits.turns hturns
  asks := (Journal.Spends.refl hasks).trans hfits.asks
  ends := by
    rcases hfits.ends with ⟨es, heq, hes⟩
    exact ⟨es, heq, fun e he stamp wait hended =>
      (hes e he stamp wait hended).imp_right (hwaits wait)⟩
  poised := hfits.poised

/-- What comes after a cycle may be said in another way. -/
theorem Fits.imp (hfits : Fits who most σ s s' cycles pulses turns asks waits)
    {waits' : Worker → Nat → Prop} (hwaits : ∀ wait, waits s'.worker wait → waits' s'.worker wait) :
    Fits who most σ s s' cycles pulses turns asks waits' :=
  hfits.mono (Nat.le_refl _) (Nat.le_refl _) (Nat.le_refl _) (Nat.le_refl _) hwaits

/-- Before a part of a turn something was entered that counts for nothing. -/
theorem Fits.after (hfits : Fits who most σ s₁ s' cycles pulses turns asks waits)
    (hplain : Journal.Adds (fun e => e.isPlain = true) s.journal s₁.journal) :
    Fits who most σ s s' cycles pulses turns asks waits := by
  have hcounted := fun e he => Entry.not_counted_of_isPlain (e := e) he who
  have hcycle := hplain.countP_eq fun e he => (hcounted e he).1
  have hbeat := hplain.countP_eq fun e he => (hcounted e he).2.1
  have hasks : Journal.Spends who most s.journal s₁.journal asks asks :=
    .of_adds hplain fun e he => ⟨(hcounted e he).1, (hcounted e he).2.2⟩
  refine ⟨hcycle ▸ hfits.cycles, hbeat ▸ hfits.pulses, hfits.turns, hasks.trans hfits.asks, ?_,
    hfits.poised⟩
  · rcases hplain with ⟨es, heq, hes⟩
    rcases hfits.ends with ⟨es', heq', hes'⟩
    refine ⟨es' ++ es, by rw [heq', heq, List.append_assoc], fun e he => ?_⟩
    rcases List.mem_append.mp he with he | he
    · exact hes' e he
    · rintro stamp wait rfl
      exact nomatch hes _ he

/-- The worker comes to wait, and nothing was entered. -/
theorem Fits.still (hjournal : s'.journal = s.journal)
    (hturns : s'.worker.turnsLeft s'.now s'.outbox σ ≤ turns) (hpoised : s'.worker.Poised) :
    Fits who most σ s s' (s'.worker.cyclesLeft s'.now s'.outbox) (s'.worker.pulsesLeft s'.now)
      turns s'.worker.asksLeft waits where
  cycles := by rw [hjournal]
  pulses := by rw [hjournal]
  turns := hturns
  asks := hjournal ▸ .refl (Nat.le_refl _)
  ends := hjournal ▸ Journal.Adds.refl _ _
  poised := hpoised

theorem plain_cons (j : Journal) {e : Entry} (he : e.isPlain = true) :
    Journal.Adds (fun e => e.isPlain = true) j (e :: j) :=
  (Journal.Adds.refl _ j).cons he

/-- The worker rests until the next pulse or the next cycle. -/
theorem fits_rest : Fits who most σ s s.rest (s.worker.cyclesDue s.now s.outbox)
    (s.worker.pulsesDue s.now)
    (8 * (s.worker.cyclesDue s.now s.outbox + s.worker.pulsesDue s.now) + 3 +
      s.worker.unseen σ) 0 fun _ _ => False :=
  Fits.still rfl (Nat.le_refl _) rfl

/-- A cycle ends, and the next one is not due unless the rest takes no time. -/
theorem fits_endCycle (wait : Nat) : Fits who most σ s (s.endCycle wait)
    (if wait = 0 then 1 + s.worker.credit s.outbox else 0) (s.worker.pulsesDue s.now)
    (8 * ((if wait = 0 then 1 + s.worker.credit s.outbox else 0) + s.worker.pulsesDue s.now) + 3 +
      s.worker.unseen σ) 0
    fun w' n => n = wait ∧ w'.stats = s.worker.stats ∧ w'.link = s.worker.link := by
  -- The next cycle is due at this instant only if the rest takes no time.
  have hdue : (s.endCycle wait).worker.cyclesLeft s.now s.outbox =
      if wait = 0 then 1 + s.worker.credit s.outbox else 0 := by
    show (if s.now + wait ≤ s.now then 1 + s.worker.credit s.outbox else 0) = _
    by_cases hzero : wait = 0
    · rw [if_pos (by omega), if_pos hzero]
    · rw [if_neg (by omega), if_neg hzero]
  have hcount : ∀ p : Entry → Bool, p (.cycleEnded s.stamp wait) = false →
      (s.endCycle wait).journal.countP p = s.journal.countP p :=
    fun p hp => List.countP_cons_of_neg (by simp [hp])
  refine ⟨?_, ?_, ?_, ?_, ⟨[.cycleEnded s.stamp wait], rfl, ?_⟩, rfl⟩
  · rw [hcount _ rfl]
    exact Nat.add_le_add_left (Nat.le_of_eq hdue) _
  · rw [hcount _ rfl]
    exact Nat.le_refl _
  · rw [← hdue]
    exact Nat.le_refl _
  · exact .of_adds ((Journal.Adds.refl (· = .cycleEnded s.stamp wait) _).cons rfl)
      fun e he => by rw [he]; exact ⟨rfl, rfl⟩
  · intro e he stamp n hended
    rw [List.mem_singleton.mp he] at hended
    rw [← (Entry.cycleEnded.inj hended).2]
    exact ⟨rfl, rfl, rfl, rfl⟩

/-- A cycle ends, and the next one comes after some time. -/
theorem fits_endCycle_later {wait : Nat} (hpositive : 0 < wait) :
    Fits who most σ s (s.endCycle wait) 0 (s.worker.pulsesDue s.now)
      (8 * s.worker.pulsesDue s.now + 3 + s.worker.unseen σ) 0
    fun w' n => n = wait ∧ w'.stats = s.worker.stats ∧ w'.link = s.worker.link := by
  have hfits : Fits who most σ s (s.endCycle wait) _ _ _ _ _ := fits_endCycle wait
  rw [if_neg (by omega), Nat.zero_add] at hfits
  exact hfits

/-- A cycle ends with nothing in hand, and the next one comes after some time. -/
theorem fits_endIdle {wait : Nat} (hpositive : 0 < wait) : Fits who most σ s (s.endIdle wait) 0
    (s.worker.pulsesDue s.now) (8 * s.worker.pulsesDue s.now + 3 + s.worker.unseen σ) 0
    fun w' n => n = wait ∧ w'.stats = s.worker.stats ∧ w'.link = s.worker.link :=
  Fits.after (s := s) (fits_endCycle_later (s := s.becomes .idle) hpositive)
    (Journal.Adds.refl _ _)

/-- Who has come to an end has nothing left to do. -/
theorem fits_over (how : End) : Fits who most σ s (s.await (.over how)) 0 0
    (s.worker.unseen σ) 0 fun _ _ => False := by
  refine Fits.still rfl ?_ trivial
  show 8 * (0 + 0) + 0 + s.worker.unseen σ ≤ _
  omega

/-- The worker comes to its own end. -/
theorem fits_finish (halt : Option Halt) : Fits who most σ s (s.finish halt) 0 0
    (s.worker.unseen σ) 0 fun _ _ => False := by
  cases halt with
  | none =>
      exact (fits_over (s := (s.note _).becomes .stopped) .finished).after
        (plain_cons s.journal (e := .notice (.processorStopped s.worker.stats.batchesApplied
          s.worker.stats.eventsConsumed s.worker.stats.failedAttempts)) rfl)
  | some halt =>
      exact (fits_over (s := s.becomes _) .finished).after (Journal.Adds.refl _ _)

/-- The worker leaves, or has come to its end. -/
theorem fits_depart (halt : Option Halt) : Fits who most σ s (s.depart halt) 0 0
    (1 + s.worker.unseen σ) 0 fun _ _ => False := by
  unfold depart
  split
  · exact (fits_finish halt).mono (Nat.le_refl _) (Nat.le_refl _) (Nat.le_add_left _ _)
      (Nat.le_refl _) fun _ => id
  · exact Fits.still rfl (Nat.le_refl _) trivial

section Batches

variable (hpositive : s.worker.settings.Positive)

include hpositive

/-- A batch is given up. -/
theorem fits_loseOwnership (h : Handover) (hcan : s.canProcess = false) :
    Fits who most σ s (s.loseOwnership h) 0 (s.worker.pulsesDue s.now)
      (8 * s.worker.pulsesDue s.now + 3 + s.worker.unseen σ) 0 (s.worker.Lost s.now) := by
  have hended : Fits who most σ _ (s.loseOwnership h) _ _ _ _ _ :=
    fits_endCycle_later hpositive.pollingInterval
  refine Fits.imp (hended.after
    (plain_cons s.journal (e := .notice (.ownershipLost h.batch.events.length)) rfl)) ?_
  rintro wait ⟨hwait, hstats, hlink⟩
  refine ⟨⟨hwait, ?_⟩, hstats⟩
  rw [hlink]
  exact hcan

/-- A batch has failed: it is kept, or the worker gives up. -/
theorem fits_failBatch (h : Handover) (error : CoordinationError) :
    Fits who most σ s (s.failBatch h error) 0 (s.worker.pulsesDue s.now)
      (8 * s.worker.pulsesDue s.now + 3 + s.worker.unseen σ) 0 s.worker.Failed := by
  unfold failBatch
  dsimp only
  split
  · refine ((fits_depart _).after (plain_cons s.journal (e := .notice _) rfl)).mono (Nat.le_refl _)
      (Nat.zero_le _) ?_ (Nat.le_refl _) fun _ => False.elim
    show 1 + s.worker.unseen σ ≤ _
    omega
  · exact Fits.imp ((fits_endCycle_later hpositive.retryWait).after
      (plain_cons s.journal (e := .notice _) rfl)) fun _ hwait => ⟨hwait.1, hwait.2.1⟩

/-- The sink keeps a batch, or it is given up. -/
theorem fits_keepApplying (hbatches : h.cycle.batches < s.worker.settings.maxConsecutiveBatches) :
    Fits who most σ s (s.keepApplying h)
      (s.worker.cyclesAfter (s.outbox.delete h.batch.ids) h.batch) (s.worker.pulsesDue s.now)
      (8 * (s.worker.cyclesAfter (s.outbox.delete h.batch.ids) h.batch +
        s.worker.pulsesDue s.now) + 7 + s.worker.unseen σ)
      (s.worker.settings.maxConsecutiveBatches - h.cycle.batches -
        if h.ongoing.isSome then 1 else 0)
      (s.worker.Lost s.now) := by
  unfold keepApplying
  split
  · refine Fits.still rfl ?_ hbatches
    refine Nat.add_le_add_right (Nat.add_le_add_left ?_ _) _
    show (if h.ongoing.isSome then 6 else 7) ≤ 7
    split <;> omega
  · rename_i hcan
    exact (fits_loseOwnership hpositive h (Bool.eq_false_iff.mpr hcan)).mono (Nat.zero_le _)
      (Nat.le_refl _) (by omega) (Nat.zero_le _) fun _ => id

/-- A batch is handed on for the first time or again, or it is given up. -/
theorem fits_handOver {cycle : Cycle} (batch : Batch)
    (hbatches : cycle.batches < s.worker.settings.maxConsecutiveBatches) :
    Fits who most σ s (s.handOver cycle batch)
      (s.worker.cyclesAfter (s.outbox.delete batch.ids) batch) (s.worker.pulsesDue s.now)
      (8 * (s.worker.cyclesAfter (s.outbox.delete batch.ids) batch +
        s.worker.pulsesDue s.now) + 7 + s.worker.unseen σ)
      (s.worker.settings.maxConsecutiveBatches - cycle.batches)
      (s.worker.Lost s.now) := by
  have hfits : Fits who most σ (s.becomes .applying) (s.handOver cycle batch) _ _ _ _ _ :=
    fits_keepApplying hpositive hbatches
  exact hfits.after (Journal.Adds.refl _ _)

omit hpositive in
/-- The worker looks for another batch. -/
theorem fits_search {cycle : Cycle} (hnone : s.worker.retained = none)
    (hbatches : cycle.batches < s.worker.settings.maxConsecutiveBatches) :
    Fits who most σ s (s.nextBatch cycle) (s.worker.loads s.outbox) (s.worker.pulsesDue s.now)
      (8 * (s.worker.loads s.outbox + s.worker.pulsesDue s.now) + 8 + s.worker.unseen σ)
      (s.worker.settings.maxConsecutiveBatches - cycle.batches) fun _ _ => False := by
  unfold nextBatch
  rw [hnone]
  exact Fits.still rfl (Nat.le_refl _) hbatches

/-- The worker goes on with the batch that it keeps, or looks for another one. -/
theorem fits_nextBatch {cycle : Cycle}
    (hbatches : cycle.batches < s.worker.settings.maxConsecutiveBatches) :
    Fits who most σ s (s.nextBatch cycle) (s.worker.credit s.outbox) (s.worker.pulsesDue s.now)
      (8 * (s.worker.credit s.outbox + s.worker.pulsesDue s.now) + 8 + s.worker.unseen σ)
      (s.worker.settings.maxConsecutiveBatches - cycle.batches)
      (s.worker.Skipped s.now) := by
  cases hretained : s.worker.retained with
  | none =>
      have hcredit : s.worker.credit s.outbox = s.worker.loads s.outbox := by
        simp [Worker.credit, hretained]
      rw [hcredit]
      exact (fits_search hretained hbatches).imp fun _ => False.elim
  | some batch =>
      -- The rows of the batch may be gone, so it has a cycle to its own credit.
      have hcredit : s.worker.credit s.outbox = s.worker.loads s.outbox + 1 := by
        simp [Worker.credit, hretained]
      have hafter := s.worker.cyclesAfter_le s.outbox batch.ids batch
      have htaken : Fits who most σ _ _ _ _ _ _ _ :=
        fits_handOver (s := { s with worker.retained := none }) hpositive batch hbatches
      unfold nextBatch
      rw [hretained]
      refine Fits.mono (Fits.after (s := s) htaken (Journal.Adds.refl _ _)) ?_ (Nat.le_refl _) ?_
        (Nat.le_refl _) ?_
      · rw [hcredit, Nat.add_comm]
        exact hafter
      · rw [hcredit]
        show 8 * (s.worker.cyclesAfter (Table.delete s.outbox batch.ids) batch +
          s.worker.pulsesDue s.now) + 7 + s.worker.unseen σ ≤ _
        omega
      · exact fun _ hwait => hwait.1

omit hpositive in
/-- A pulse or a renewal has been entered. -/
theorem Fits.beaten {e : Entry} (he : e.isCycle who = false ∧ e.isAsk who = false ∧
      ∀ stamp wait, e ≠ .cycleEnded stamp wait)
    (hfits : Fits who most σ (s.enter e) s' cycles pulses turns asks waits) :
    Fits who most σ s s' cycles (1 + pulses) turns asks waits where
  cycles := by
    have hcycles := hfits.cycles
    rwa [enter, List.countP_cons_of_neg (by simp [he])] at hcycles
  pulses := by
    have hpulses := hfits.pulses
    rw [enter, List.countP_cons] at hpulses
    -- If the entry is another worker's, less is used than is allowed for.
    split at hpulses <;> omega
  turns := hfits.turns
  asks := (Journal.Spends.of_adds ((Journal.Adds.refl (· = e) _).cons rfl)
    fun _ heq => heq ▸ ⟨he.1, he.2.1⟩).trans hfits.asks
  ends := by
    rcases hfits.ends with ⟨es, heq, hes⟩
    refine ⟨es ++ [e], by rw [heq]; simp [enter], fun e' he' => ?_⟩
    rcases List.mem_append.mp he' with he' | he'
    · exact hes e' he'
    · rw [List.mem_singleton.mp he']
      exact fun stamp wait hended => absurd hended (he.2.2 stamp wait)
  poised := hfits.poised

omit hpositive in
/-- That a cycle begins has been entered, and it may ask the sink as often as any. -/
theorem Fits.begun (hwho : s.stamp.post = who)
    (hfits : Fits who most σ (s.enter (.cycleBegan s.stamp)) s' cycles pulses turns asks waits)
    (hasks : asks ≤ most) : Fits who most σ s s' (1 + cycles) pulses turns 0 waits where
  cycles := by
    have hcycles := hfits.cycles
    rw [enter, List.countP_cons_of_pos (by simp [Entry.isCycle, hwho])] at hcycles
    omega
  pulses := hfits.pulses
  turns := hfits.turns
  asks := (Journal.Spends.begun (by simp [Entry.isCycle, hwho])).trans
    ((Journal.Spends.refl hasks).trans hfits.asks)
  ends := by
    rcases hfits.ends with ⟨es, heq, hes⟩
    refine ⟨es ++ [.cycleBegan s.stamp], by rw [heq]; simp [enter], fun e he => ?_⟩
    rcases List.mem_append.mp he with he | he
    · exact hes e he
    · rw [List.mem_singleton.mp he]
      exact fun _ _ => Entry.noConfusion
  poised := hfits.poised

/-- What is looked at when a cycle begins is the same in both scenes, apart from a batch that is
    not kept any more. -/
structure Levels (s s₁ : Scene) : Prop where
  credit_le : s₁.worker.credit s₁.outbox ≤ s.worker.credit s.outbox
  pulses_eq : s₁.worker.pulsesDue s₁.now = s.worker.pulsesDue s.now
  unseen_eq : ∀ σ, s₁.worker.unseen σ = s.worker.unseen σ
  now_eq : s₁.now = s.now
  settings_eq : s₁.worker.settings = s.worker.settings
  plain : Journal.Adds (fun e => e.isPlain = true) s.journal s₁.journal

omit hpositive in
theorem levels_dropForeign (s : Scene) : Levels s s.dropForeign := by
  unfold dropForeign
  split
  · exact ⟨Nat.le_refl _, rfl, fun _ => rfl, rfl, rfl, Journal.Adds.refl _ _⟩
  · dsimp only
    split
    · exact ⟨Nat.le_refl _, rfl, fun _ => rfl, rfl, rfl, Journal.Adds.refl _ _⟩
    · exact ⟨Nat.add_le_add_left (Nat.zero_le _) _, rfl, fun _ => rfl, rfl, rfl, plain_cons _ rfl⟩

/-- A cycle begins. -/
theorem fits_beginCycle (hwho : s.stamp.post = who)
    (hmost : s.worker.settings.maxConsecutiveBatches ≤ most) : Fits who most σ s s.beginCycle
    (1 + s.worker.credit s.outbox) (s.worker.pulsesDue s.now)
    (8 * (s.worker.credit s.outbox + s.worker.pulsesDue s.now) + 8 + s.worker.unseen σ) 0
    (s.worker.Skipped s.now) := by
  -- A batch that is dropped was worth a cycle, so dropping it can only leave less to do.
  have hlevels := levels_dropForeign (s.enter (.cycleBegan s.stamp))
  unfold beginCycle
  dsimp only
  generalize (s.enter (.cycleBegan s.stamp)).dropForeign = s₁ at hlevels ⊢
  rcases hlevels with ⟨hcredit, hpulses, hunseen, hnow, hsettings, hplain⟩
  have hcredit : s₁.worker.credit s₁.outbox ≤ s.worker.credit s.outbox := hcredit
  have hpulses : s₁.worker.pulsesDue s₁.now = s.worker.pulsesDue s.now := hpulses
  have hunseen : s₁.worker.unseen σ = s.worker.unseen σ := hunseen σ
  have hsettings : s₁.worker.settings = s.worker.settings := hsettings
  have hskipped : ∀ w' wait, s₁.worker.Skipped s₁.now w' wait → s.worker.Skipped s.now w' wait := by
    intro w' wait hskipped
    rw [Worker.Skipped, hsettings, show s₁.now = s.now from hnow] at hskipped
    exact hskipped
  rw [← hsettings] at hpositive hmost
  split
  · refine Fits.begun hwho (Fits.mono (Fits.after (fits_nextBatch hpositive
      hpositive.maxConsecutiveBatches) hplain) hcredit (Nat.le_of_eq hpulses) (by omega)
      (Nat.le_refl _) fun _ => hskipped _ _) hmost
  · rename_i hcan
    refine Fits.begun hwho (Fits.mono (Fits.after (fits_endIdle hpositive.pollingInterval) hplain)
      (Nat.zero_le _) (Nat.le_of_eq hpulses) (by omega) (Nat.le_refl _) ?_) (Nat.zero_le _)
    rintro wait ⟨hwait, -, hlink⟩
    refine hskipped _ _ ⟨hwait, ?_⟩
    rw [hlink]
    exact Bool.eq_false_iff.mpr hcan

section Loop

variable (hwho : s.stamp.post = who) (hmost : s.worker.settings.maxConsecutiveBatches ≤ most)

include hwho hmost

/-- A cycle begins if one is due, and otherwise the worker rests. -/
theorem fits_cycleIfDue : Fits who most σ s s.cycleIfDue (s.worker.cyclesDue s.now s.outbox)
    (s.worker.pulsesDue s.now)
    (8 * (s.worker.cyclesDue s.now s.outbox + s.worker.pulsesDue s.now) +
      (if s.worker.nextCycle ≤ s.now then 0 else 3) + s.worker.unseen σ) 0
    (s.worker.Skipped s.now) := by
  unfold cycleIfDue
  split
  · rename_i hdue
    have hcycles : s.worker.cyclesDue s.now s.outbox = 1 + s.worker.credit s.outbox := if_pos hdue
    rw [hcycles]
    exact (fits_beginCycle hpositive hwho hmost).mono (Nat.le_refl _) (Nat.le_refl _) (by omega)
      (Nat.le_refl _) fun _ => id
  · exact fits_rest.imp fun _ => False.elim

/-- The head of the loop. If a pulse or a cycle is due, the worker does not rest. -/
theorem fits_loop : Fits who most σ s s.loop (s.worker.cyclesDue s.now s.outbox)
    (s.worker.pulsesDue s.now)
    (8 * (s.worker.cyclesDue s.now s.outbox + s.worker.pulsesDue s.now) +
      (if s.worker.nextCycle ≤ s.now ∨ s.worker.nextPulse ≤ s.now then 2 else 3) +
      s.worker.unseen σ) 0 (s.worker.Skipped s.now) := by
  unfold loop
  split
  · refine (fits_depart none).mono (Nat.zero_le _) (Nat.zero_le _) ?_ (Nat.le_refl _)
      fun _ => False.elim
    split <;> omega
  · split
    · rename_i hpulse
      -- The pulse that is due is the one that the worker now waits to make.
      have hpulses : s.worker.pulsesDue s.now = 1 := if_pos hpulse
      rw [if_pos (Or.inr hpulse), hpulses]
      exact Fits.still rfl (Nat.le_refl _) trivial
    · refine (fits_cycleIfDue hpositive hwho hmost).mono (Nat.le_refl _) (Nat.le_refl _) ?_
        (Nat.le_refl _) fun _ => id
      split <;> split <;> omega

/-- In its first turn the worker begins a cycle or pulses, unless it should stop. -/
theorem fits_launch : Fits who most σ s s.launch (1 + s.worker.credit s.outbox)
    (s.worker.pulsesDue s.now)
    (8 * (1 + s.worker.credit s.outbox + s.worker.pulsesDue s.now) + 2 + s.worker.unseen σ)
    0 (s.worker.Skipped s.now) := by
  have hcycles : ({ s.worker with nextCycle := s.now } : Worker).cyclesDue s.now s.outbox =
      1 + s.worker.credit s.outbox := if_pos (Nat.le_refl _)
  have hloop : Fits who most σ _ s.launch _ _ _ _ _ :=
    fits_loop (s := { s.note (.processorStarted s.worker.settings.pollingInterval
      s.worker.settings.pulseInterval) with worker.nextCycle := s.now }) hpositive hwho hmost
  refine Fits.mono (Fits.after (s := s) hloop (plain_cons _ rfl)) (Nat.le_of_eq hcycles)
    (Nat.le_refl _) ?_ (Nat.le_refl _) fun _ => id
  show 8 * (({ s.worker with nextCycle := s.now } : Worker).cyclesDue s.now s.outbox +
    s.worker.pulsesDue s.now) + (if s.now ≤ s.now ∨ s.worker.nextPulse ≤ s.now then 2 else 3) +
    s.worker.unseen σ ≤ _
  rw [hcycles, if_pos (Or.inl (Nat.le_refl _))]

/-- Who wakes up pulses or begins a cycle, or has come to see a request, or leaves. -/
theorem fits_wake {due : Nat} (hwait : s.worker.wait = .resting due)
    (hpoised : s.worker.Poised)
    (hdue : ∃ first, s.worker.dueAt s.signal = some first ∧ first ≤ s.now) :
    ∃ turns < 8 * (s.worker.cyclesDue s.now s.outbox + s.worker.pulsesDue s.now) + 3 +
        s.worker.unseen s.signal,
      Fits who most s.signal s (s.wake due) (s.worker.cyclesDue s.now s.outbox)
        (s.worker.pulsesDue s.now) turns 0 (s.worker.Skipped s.now) := by
  rw [Worker.Poised, hwait] at hpoised
  have hloop : Fits who most s.signal s s.loop _ _ _ _ _ := fits_loop hpositive hwho hmost
  -- When the rest is over, a pulse or a cycle is due.
  have hover : due ≤ s.now → s.worker.nextCycle ≤ s.now ∨ s.worker.nextPulse ≤ s.now := by
    dsimp only at hpoised
    omega
  unfold wake
  split
  · rename_i hskip
    rw [if_pos (hover hskip.2)] at hloop
    exact ⟨_, by omega, hloop⟩
  · split
    · -- The worker may rest again, but it has seen the request, and that was worth a turn.
      rename_i hnew
      have hunseen : s.worker.unseen s.signal = 1 := if_neg hnew.symm
      have hseen : ({ s.worker with seen := s.signal.version } : Worker).unseen s.signal = 0 :=
        if_pos rfl
      have hloop' : Fits who most s.signal _ (loop { s with worker.seen := s.signal.version })
          _ _ _ _ _ :=
        fits_loop (s := { s with worker.seen := s.signal.version }) hpositive hwho hmost
      refine ⟨8 * (s.worker.cyclesDue s.now s.outbox + s.worker.pulsesDue s.now) + 3, by omega,
        Fits.mono (Fits.after (s := s) hloop' (Journal.Adds.refl _ _)) (Nat.le_refl _)
          (Nat.le_refl _) ?_ (Nat.le_refl _) fun _ => id⟩
      show 8 * (s.worker.cyclesDue s.now s.outbox + s.worker.pulsesDue s.now) +
        (if s.worker.nextCycle ≤ s.now ∨ s.worker.nextPulse ≤ s.now then 2 else 3) +
        ({ s.worker with seen := s.signal.version } : Worker).unseen s.signal ≤ _
      rw [hseen]
      split <;> omega
    · split
      · exact ⟨_, by omega, (fits_depart none).mono (Nat.zero_le _) (Nat.zero_le _) (Nat.le_refl _)
          (Nat.le_refl _) fun _ => False.elim⟩
      · -- No request has woken the worker, so its rest is over.
        rename_i hseen hdropped
        rcases hdue with ⟨first, hfirst, hle⟩
        simp only [Worker.dueAt, hwait] at hfirst
        rw [if_neg (by simp [hseen, hdropped])] at hfirst
        rw [if_pos (hover (Option.some.inj hfirst ▸ hle))] at hloop
        exact ⟨_, by omega, hloop⟩

/-- A pulse puts off the next one, or it ends the worker. -/
theorem fits_pulse (started : Nat) (wall : Int) : Fits who most σ s (s.pulse started wall)
    (s.worker.cyclesDue s.now s.outbox) 1
    (8 * s.worker.cyclesDue s.now s.outbox + 3 + s.worker.unseen σ) 0
    (s.worker.Skipped s.now) := by
  -- However the next pulse is put off, it is not due at this instant any more.
  have hput : ∀ w : Worker, w.nextPulse = s.now + s.worker.settings.pulseInterval →
      w.pulsesDue s.now = 0 := by
    intro w hw
    have hlater := hpositive.pulseInterval
    exact if_neg (by omega)
  have hname : ((s.enter (.pulsed s.stamp)).attempt
      fun l => l.pulse ⟨started, wall, s.now⟩).stamp.post = who := by
    rw [← hwho]
    exact congrArg (Prod.mk s.host.name) (Link.name_pulse _ _ _ _)
  suffices hfits : Fits who most σ (s.enter (.pulsed s.stamp)) (s.pulse started wall)
      (s.worker.cyclesDue s.now s.outbox) 0
      (8 * s.worker.cyclesDue s.now s.outbox + 3 + s.worker.unseen σ) 0
      (s.worker.Skipped s.now) from
    hfits.beaten ⟨rfl, rfl, fun _ _ => Entry.noConfusion⟩
  have hplain : Journal.Adds (fun e => e.isPlain = true) (s.enter (.pulsed s.stamp)).journal
      ((s.enter (.pulsed s.stamp)).attempt fun l => l.pulse ⟨started, wall, s.now⟩).journal :=
    (Journal.Adds.refl _ _).addNotices (fun _ => rfl) _
  rcases s.pulse_cases started wall with ⟨_, heq⟩ | ⟨_, heq⟩ <;> rw [heq]
  · refine Fits.mono ((fits_over .overflown).after hplain) (Nat.zero_le _) (Nat.le_refl _) ?_
      (Nat.le_refl _) fun _ => False.elim
    show s.worker.unseen σ ≤ _
    omega
  · have hcycle : Fits who most σ _ (cycleIfDue _) _ _ _ _ _ :=
      fits_cycleIfDue (s := { (s.enter (.pulsed s.stamp)).attempt
        (fun l => l.pulse ⟨started, wall, s.now⟩) with
        worker.nextPulse := s.now + s.worker.settings.pulseInterval }) hpositive hname hmost
    refine Fits.mono (hcycle.after hplain) (Nat.le_refl _) (Nat.le_of_eq (hput _ rfl)) ?_
      (Nat.le_refl _) fun _ => id
    show 8 * (s.worker.cyclesDue s.now s.outbox + Worker.pulsesDue _ s.now) +
      (if s.worker.nextCycle ≤ s.now then 0 else 3) + s.worker.unseen σ ≤ _
    rw [hput _ rfl]
    split <;> omega

end Loop

/-- A renewal puts off the next pulse, and the sink keeps the batch or it is given up. -/
theorem fits_renew (hbatches : h.cycle.batches < s.worker.settings.maxConsecutiveBatches)
    (started : Nat) (wall : Int) : Fits who most σ s (s.renew started wall h)
    (s.worker.cyclesAfter (s.outbox.delete h.batch.ids) h.batch) 1
    (8 * s.worker.cyclesAfter (s.outbox.delete h.batch.ids) h.batch + 7 +
      s.worker.unseen σ)
    (s.worker.settings.maxConsecutiveBatches - h.cycle.batches -
      if h.ongoing.isSome then 1 else 0) (s.worker.Lost s.now) := by
  have hput : ∀ w : Worker, w.nextPulse = s.now + s.worker.settings.pulseInterval →
      w.pulsesDue s.now = 0 := by
    intro w hw
    have hlater := hpositive.pulseInterval
    exact if_neg (by omega)
  have hkept : Fits who most σ _ (s.renew started wall h) _ _ _ _ _ :=
    fits_keepApplying (s := { (s.enter (.renewed s.stamp)).attempt
      (fun l => l.renew ⟨started, wall, s.now⟩) with
      worker.nextPulse := s.now + s.worker.settings.pulseInterval }) hpositive hbatches
  refine Fits.beaten ⟨rfl, rfl, fun _ _ => Entry.noConfusion⟩ (Fits.mono (hkept.after
    ((Journal.Adds.refl _ _).addNotices (fun _ => rfl) _)) (Nat.le_refl _)
    (Nat.le_of_eq (hput _ rfl)) ?_ (Nat.le_refl _) fun _ => id)
  show 8 * (s.worker.cyclesAfter (Table.delete s.outbox h.batch.ids) h.batch +
    Worker.pulsesDue _ s.now) + 7 + s.worker.unseen σ ≤ _
  rw [hput _ rfl]
  exact Nat.le_refl _

/-- A full batch that was found takes as many rows as it has events. -/
theorem cyclesAfter_search {cycle : Cycle} {events : List OutboxEvent} {agentId : Option Int}
    (hsearch : s.outbox.search cycle.assignment s.worker.settings.batchSize = .ok events) :
    s.worker.cyclesAfter (s.outbox.delete (events.map (·.id)))
      { events, agentId, assignment := cycle.assignment } ≤ s.worker.loads s.outbox := by
  have hrows := Outbox.length_delete_search hsearch
  have hload := hpositive.batchSize
  unfold Worker.cyclesAfter Worker.loads
  split
  · -- The rows that the batch takes make up one load, which pays for the cycle after it.
    rename_i hfull
    have hfull : s.worker.settings.batchSize ≤ events.length := hfull
    rw [Nat.add_comm, ← Nat.add_div_right _ hload]
    exact Nat.div_le_div_right (by omega)
  · exact Nat.zero_le _

/-- A search finds nothing, or it fails, or the batch is handed on or given up. -/
theorem fits_poll {cycle : Cycle}
    (hbatches : cycle.batches < s.worker.settings.maxConsecutiveBatches) :
    Fits who most σ s (s.poll cycle) (s.worker.loads s.outbox) (s.worker.pulsesDue s.now)
      (8 * (s.worker.loads s.outbox + s.worker.pulsesDue s.now) + 7 + s.worker.unseen σ)
      (s.worker.settings.maxConsecutiveBatches - cycle.batches)
      fun w' n => n = s.worker.settings.pollingInterval ∧ w'.stats = s.worker.stats ∨
        s.worker.Lost s.now w' n := by
  -- Without a batch the cycle ends, whether or not that the search has failed is reported.
  have hidle : ∀ s₁ : Scene, Journal.Adds (fun e => e.isPlain = true) s.journal s₁.journal →
      s₁.worker = s.worker → s₁.now = s.now →
      Fits who most σ s (s₁.endIdle s₁.worker.settings.pollingInterval) (s.worker.loads s.outbox)
        (s.worker.pulsesDue s.now)
        (8 * (s.worker.loads s.outbox + s.worker.pulsesDue s.now) + 7 + s.worker.unseen σ)
        (s.worker.settings.maxConsecutiveBatches - cycle.batches)
        fun w' n => n = s.worker.settings.pollingInterval ∧ w'.stats = s.worker.stats ∨
          s.worker.Lost s.now w' n := by
    intro s₁ hplain hworker hnow
    rw [← hworker] at hpositive ⊢
    rw [← hnow]
    exact ((fits_endIdle hpositive.pollingInterval).after hplain).mono (Nat.zero_le _)
      (Nat.le_refl _) (by omega) (Nat.zero_le _) fun _ hwait => Or.inl ⟨hwait.1, hwait.2.1⟩
  unfold poll
  dsimp only [strike]
  cases (s.host.access.faults.strike .find).1 with
  | some error => exact hidle _ ((plain_cons s.journal rfl).cons rfl) rfl rfl
  | none =>
      dsimp only
      cases hsearch : s.outbox.search cycle.assignment s.worker.settings.batchSize with
      | error e => exact hidle _ ((plain_cons s.journal rfl).cons rfl) rfl rfl
      | ok events =>
          dsimp only
          split
          · exact hidle _ (plain_cons s.journal rfl) rfl rfl
          · -- From here on the cycle lives on what these rows were worth.
            have hafter : s.worker.cyclesAfter (Table.delete s.outbox (events.map (·.id)))
                ⟨events, cycle.agentId, cycle.assignment, 0⟩ ≤ s.worker.loads s.outbox :=
              cyclesAfter_search hpositive hsearch
            have hhanded : Fits who most σ _ _ _ _ _ _ _ := fits_handOver
              (s := (s.strike .find).2.enter (.searched s.stamp s.worker.link.snapshot
                cycle.assignment (some events))) hpositive
              { events, agentId := cycle.agentId, assignment := cycle.assignment } hbatches
            refine Fits.mono (Fits.after (s := s) hhanded (plain_cons s.journal rfl)) hafter
              (Nat.le_refl _) ?_ (Nat.le_refl _) fun _ => Or.inr
            show 8 * (s.worker.cyclesAfter (Table.delete s.outbox (events.map (·.id)))
              ⟨events, cycle.agentId, cycle.assignment, 0⟩ + s.worker.pulsesDue s.now) + 7 +
              s.worker.unseen σ ≤ _
            omega

/-- The sink is done with a batch that it has been given. -/
theorem fits_sinkDone (hbatches : h.cycle.batches < s.worker.settings.maxConsecutiveBatches)
    (ending : Ending) : Fits who most σ s (s.sinkDone h ending)
      (s.worker.cyclesAfter (s.outbox.delete h.batch.ids) h.batch) (s.worker.pulsesDue s.now)
      (8 * (s.worker.cyclesAfter (s.outbox.delete h.batch.ids) h.batch +
        s.worker.pulsesDue s.now) + 5 + s.worker.unseen σ)
      (s.worker.settings.maxConsecutiveBatches - h.cycle.batches - 1)
      fun w' n => s.worker.Lost s.now w' n ∨ s.worker.Failed w' n := by
  have hplain : Journal.Adds (fun e => e.isPlain = true) s.journal
      (s.enter (.ended s.stamp h.batch ending)).journal := plain_cons s.journal rfl
  cases ending with
  | broken =>
      refine Fits.mono ((fits_over .broken).after hplain) (Nat.zero_le _) (Nat.zero_le _) ?_
        (Nat.zero_le _) fun _ => False.elim
      show s.worker.unseen σ ≤ _
      omega
  | refused message =>
      have hfailed : Fits who most σ _ (s.sinkDone h (.refused message)) _ _ _ _ _ :=
        fits_failBatch (s := s.enter (.ended s.stamp h.batch (.refused message))) hpositive h
          (.sink ⟨message, []⟩)
      refine Fits.mono (hfailed.after hplain) (Nat.zero_le _) (Nat.le_refl _) ?_ (Nat.zero_le _)
        fun _ => Or.inr
      show 8 * s.worker.pulsesDue s.now + 3 + s.worker.unseen σ ≤ _
      omega
  | accepted =>
      unfold sinkDone
      dsimp only
      split
      · -- Nothing is used up by asking for the deletion: the rows are still counted as deleted.
        have hasked : Fits who most σ ((s.enter (.ended s.stamp h.batch .accepted)).enter
            (.deleting s.stamp s.worker.link.snapshot h.batch))
            ((s.enter (.ended s.stamp h.batch .accepted)).askDelete h)
            (s.worker.cyclesAfter (s.outbox.delete h.batch.ids) h.batch) (s.worker.pulsesDue s.now)
            (8 * (s.worker.cyclesAfter (s.outbox.delete h.batch.ids) h.batch +
              s.worker.pulsesDue s.now) + 5 + s.worker.unseen σ)
            (s.worker.settings.maxConsecutiveBatches - h.cycle.batches - 1) fun _ _ => False :=
          Fits.still rfl (Nat.le_refl _) hbatches
        exact (hasked.after (hplain.cons rfl)).imp fun _ => False.elim
      · rename_i hcan
        have hlost : Fits who most σ _ _ _ _ _ _ _ :=
          fits_loseOwnership (s := s.enter (.ended s.stamp h.batch .accepted)) hpositive h
            (Bool.eq_false_iff.mpr hcan)
        refine Fits.mono (hlost.after hplain) (Nat.zero_le _) (Nat.le_refl _) ?_ (Nat.zero_le _)
          fun _ => Or.inl
        show 8 * s.worker.pulsesDue s.now + 3 + s.worker.unseen σ ≤ _
        omega

/-- Whatever the worker takes up of what it waits for at its sink. -/
theorem fits_raced (hbatches : h.cycle.batches < s.worker.settings.maxConsecutiveBatches)
    (hraced : Raced s h s') (hwait : s'.worker.wait ≠ .applying h) : Fits who most σ s s'
      (s.worker.cyclesAfter (s.outbox.delete h.batch.ids) h.batch) (s.worker.pulsesDue s.now)
      (8 * (s.worker.cyclesAfter (s.outbox.delete h.batch.ids) h.batch +
        s.worker.pulsesDue s.now) + 5 + s.worker.unseen σ)
      (s.worker.settings.maxConsecutiveBatches - h.cycle.batches -
        if h.ongoing.isSome then 1 else 0)
      fun w' n => s.worker.Lost s.now w' n ∨ s.worker.Failed w' n := by
  cases hraced with
  | nothing => exact absurd rfl hwait
  | sink hongoing _ =>
      rw [hongoing]
      exact fits_sinkDone hpositive hbatches _
  | renewal hpulse =>
      have hpulses : s.worker.pulsesDue s.now = 1 := if_pos hpulse
      rw [hpulses]
      exact Fits.still rfl (Nat.le_refl _) hbatches
  | deadline hcan =>
      exact (fits_loseOwnership hpositive h hcan).mono (Nat.zero_le _) (Nat.le_refl _) (by omega)
        (Nat.zero_le _) fun _ => Or.inl
  | timeout _ _ =>
      exact (fits_failBatch hpositive h _).mono (Nat.zero_le _) (Nat.le_refl _) (by omega)
        (Nat.zero_le _) fun _ => Or.inr

end Batches

section Race

/-- Once the sink has been asked, the worker waits on as it is, or does not wait for it. -/
theorem wait_race_cases {ongoing : Nat × Ending} (hongoing : h.ongoing = some ongoing)
    (branches : List Branch) : (s.race h branches).worker.wait = .applying h ∨
      ∀ h', (s.race h branches).worker.wait ≠ .applying h' := by
  rcases race_cases s h branches with ⟨s₁, h₁, hasked, hraced⟩
  cases hasked with
  | now hnone => exact nomatch hnone.symm.trans hongoing
  | before =>
      generalize s.race h branches = s' at hraced ⊢
      cases hraced with
      | nothing => exact Or.inl rfl
      | renewal _ => exact Or.inr fun _ => Wait.noConfusion
      | deadline _ => exact Or.inr fun _ => Wait.noConfusion
      | timeout _ _ => exact Or.inr (wait_failBatch _ _ _)
      | sink _ _ => exact Or.inr (wait_sinkDone _ _ _)

/-- If one of the branches is there, the worker does not wait on as it was. -/
theorem wait_race_ne {branches : List Branch} (hthere : ∃ b ∈ branches, b.There s h) :
    (s.race h branches).worker.wait ≠ .applying h := by
  induction branches with
  | nil => exact absurd hthere fun ⟨_, hmem, _⟩ => List.not_mem_nil hmem
  | cons branch rest ih =>
      -- The first branch is taken up if it is there, and otherwise one of the others is.
      have hrest : ¬ branch.There s h → ∃ b ∈ rest, b.There s h := by
        rintro hnot
        rcases hthere with ⟨b, hmem, hb⟩
        rcases List.mem_cons.mp hmem with rfl | hmem
        · exact absurd hb hnot
        · exact ⟨b, hmem, hb⟩
      cases branch with
      | sink =>
          unfold race
          cases hongoing : h.ongoing with
          | some ongoing =>
              have hsame : { h with ongoing := some ongoing } = h := by rw [← hongoing]
              dsimp only
              rw [hsame]
              split
              · exact wait_sinkDone _ _ _ _
              · rename_i hdue
                exact ih (hrest fun hsink => hdue (hsink _ _ hongoing))
          | none =>
              dsimp only
              split
              · exact wait_sinkDone _ _ _ _
              · -- The sink has been asked, so even the same wait is another one.
                intro hsame
                rcases wait_race_cases (s := (s.askSink h).1)
                  (h := { h with ongoing := some (s.askSink h).2 }) rfl rest with heq | hnot
                · have hasked := congrArg Handover.ongoing
                    (Wait.applying.inj (hsame.symm.trans heq))
                  cases hongoing.symm.trans hasked
                · exact hnot h hsame
      | renewal =>
          unfold race
          split
          · exact Wait.noConfusion
          · exact ih (hrest ‹_›)
      | deadline =>
          unfold race
          split
          · exact Wait.noConfusion
          · exact ih (hrest ‹_›)
      | timeout =>
          unfold race
          split
          · exact wait_failBatch _ _ _ _
          · exact ih (hrest ‹_›)

/-- When a worker goes on that waits for its sink, one of the branches is there. -/
theorem exists_there (hwait : s.worker.wait = .applying h)
    (hdue : ∃ first, s.worker.dueAt s.signal = some first ∧ first ≤ s.now) :
    ∃ b : Branch, b.There s h := by
  rcases hdue with ⟨first, hfirst, hle⟩
  simp only [Worker.dueAt, hwait] at hfirst
  cases hongoing : h.ongoing with
  | none =>
      refine ⟨.sink, fun _ _ heq => ?_⟩
      cases hongoing.symm.trans heq
  | some ongoing =>
      rw [hongoing] at hfirst
      by_cases hearly : min ongoing.1 s.worker.nextPulse ≤ s.now
      · by_cases hsink : ongoing.1 ≤ s.now
        · refine ⟨.sink, fun due ending heq => ?_⟩
          rw [hongoing] at heq
          rwa [Option.some.inj heq] at hsink
        · exact ⟨.renewal, by show s.worker.nextPulse ≤ s.now; omega⟩
      · rcases Worker.exists_of_earlier hfirst hle (Nat.lt_of_not_le hearly) with ⟨l, hl, hle⟩
        -- Of the lease and the time allowed, the one that ends first has ended.
        cases hlease : s.worker.link.snapshot.leaseDeadline with
        | none =>
            rw [hlease] at hl
            exact ⟨.timeout, by simp [Branch.There, show h.timeoutAt = some l from hl, hle]⟩
        | some deadline =>
            rw [hlease] at hl
            by_cases hlapsed : deadline ≤ s.now
            · exact ⟨.deadline, by simp [Branch.There, hlease, hlapsed]⟩
            · rcases Worker.exists_of_earlier hl hle (Nat.lt_of_not_le hlapsed)
                with ⟨limit, hlimit, hle⟩
              exact ⟨.timeout, by simp [Branch.There, hlimit, hle]⟩

end Race

section Turns

variable (hpositive : s.worker.settings.Positive)

/-- The sink has been asked once more. -/
theorem Fits.asked (hfits : Fits who most σ (s.askSink h).1 s' cycles pulses turns asks waits) :
    Fits who most σ s s' cycles pulses turns (asks + 1) waits := by
  have hplain : Journal.Adds (fun e => e.isPlain = true)
      (s.enter (.began s.stamp s.worker.link.snapshot h.batch)).journal (s.askSink h).1.journal :=
    (Journal.Adds.refl _ _).addNotices (fun _ => rfl) _
  have hentered := Fits.after (s := s.enter (.began s.stamp s.worker.link.snapshot h.batch))
    hfits hplain
  refine ⟨?_, ?_, hentered.turns, ?_, ?_, hentered.poised⟩
  · have hcycles := hentered.cycles
    rwa [enter, List.countP_cons_of_neg (by simp [Entry.isCycle])] at hcycles
  · have hpulses := hentered.pulses
    rwa [enter, List.countP_cons_of_neg (by simp [Entry.isBeat])] at hpulses
  · exact (Journal.Spends.ask rfl).trans hentered.asks
  · rcases hentered.ends with ⟨es, heq, hes⟩
    refine ⟨es ++ [.began s.stamp s.worker.link.snapshot h.batch], by rw [heq]; simp [enter],
      fun e he => ?_⟩
    rcases List.mem_append.mp he with he | he
    · exact hes e he
    · rw [List.mem_singleton.mp he]
      exact fun _ _ => Entry.noConfusion

include hpositive

/-- The sink is asked, and then something of what the worker waits for may be taken up. -/
theorem fits_asked (hbatches : h.cycle.batches < s.worker.settings.maxConsecutiveBatches)
    (hraced : Raced (s.askSink h).1 { h with ongoing := some (s.askSink h).2 } s') :
    Fits who most σ s s' (s.worker.cyclesAfter (s.outbox.delete h.batch.ids) h.batch)
      (s.worker.pulsesDue s.now)
      (8 * (s.worker.cyclesAfter (s.outbox.delete h.batch.ids) h.batch +
        s.worker.pulsesDue s.now) + 6 + s.worker.unseen σ)
      (s.worker.settings.maxConsecutiveBatches - h.cycle.batches - 1 + 1)
      fun w' n => s.worker.Lost s.now w' n ∨ s.worker.Failed w' n := by
  -- Either the worker now waits for the sink that it has asked, or something else was there.
  by_cases hwaits : s'.worker.wait = .applying { h with ongoing := some (s.askSink h).2 }
  · have hnothing : s' = (s.askSink h).1.await
        (.applying { h with ongoing := some (s.askSink h).2 }) := by
      cases hraced with
      | nothing => rfl
      | sink _ _ => exact absurd hwaits (wait_sinkDone _ _ _ _)
      | renewal _ => exact nomatch hwaits
      | deadline _ => exact nomatch hwaits
      | timeout _ _ => exact absurd hwaits (wait_failBatch _ _ _ _)
    have hfits : Fits who most σ (s.askSink h).1 s'
        (s.worker.cyclesAfter (s.outbox.delete h.batch.ids) h.batch) (s.worker.pulsesDue s.now)
        (8 * (s.worker.cyclesAfter (s.outbox.delete h.batch.ids) h.batch +
          s.worker.pulsesDue s.now) + 6 + s.worker.unseen σ)
        (s.worker.settings.maxConsecutiveBatches - h.cycle.batches - 1) fun _ _ => False := by
      rw [hnothing]
      exact Fits.still rfl (Nat.le_refl _) hbatches
    exact hfits.asked.imp fun _ => False.elim
  · have hfits : Fits who most σ (s.askSink h).1 s'
        (s.worker.cyclesAfter (s.outbox.delete h.batch.ids) h.batch) (s.worker.pulsesDue s.now)
        (8 * (s.worker.cyclesAfter (s.outbox.delete h.batch.ids) h.batch +
          s.worker.pulsesDue s.now) + 5 + s.worker.unseen σ)
        (s.worker.settings.maxConsecutiveBatches - h.cycle.batches - 1)
        fun w' n => s.worker.Lost s.now w' n ∨ s.worker.Failed w' n :=
      fits_raced (s := (s.askSink h).1) (h := { h with ongoing := some (s.askSink h).2 })
        hpositive hbatches hraced hwaits
    exact hfits.asked.mono (Nat.le_refl _) (Nat.le_refl _) (by omega) (Nat.le_refl _) fun _ => id

/-- A turn while the sink has a batch, or is to be given it. -/
theorem fits_apply (hwait : s.worker.wait = .applying h)
    (hbatches : h.cycle.batches < s.worker.settings.maxConsecutiveBatches)
    (hdue : ∃ first, s.worker.dueAt s.signal = some first ∧ first ≤ s.now) :
    ∃ turns < 8 * (s.worker.cyclesAfter (s.outbox.delete h.batch.ids) h.batch +
        s.worker.pulsesDue s.now) + (if h.ongoing.isSome then 6 else 7) +
        s.worker.unseen σ,
      Fits who most σ s (s.apply h) (s.worker.cyclesAfter (s.outbox.delete h.batch.ids) h.batch)
        (s.worker.pulsesDue s.now) turns
        (s.worker.settings.maxConsecutiveBatches - h.cycle.batches -
          if h.ongoing.isSome then 1 else 0)
        fun w' n => s.worker.Lost s.now w' n ∨ s.worker.Failed w' n := by
  have hne : (s.apply h).worker.wait ≠ .applying h := by
    rcases exists_there hwait hdue with ⟨b, hb⟩
    exact wait_race_ne ⟨b, mem_branches b s.skip, hb⟩
  have hraced := race_cases s h ([.sink, .renewal, .deadline, .timeout].rotateLeft s.skip)
  rw [show s.race h _ = s.apply h from rfl] at hraced
  generalize s.apply h = s' at hne hraced ⊢
  rcases hraced with ⟨s₁, h₁, hasked, hraced⟩
  cases hasked with
  | before =>
      refine ⟨_, ?_, fits_raced hpositive hbatches hraced hne⟩
      split <;> omega
  | now hnone =>
      -- The sink is asked in this turn, and at the least that is behind the worker.
      have hasks : s.worker.settings.maxConsecutiveBatches - h.cycle.batches - 1 + 1 ≤
          s.worker.settings.maxConsecutiveBatches - h.cycle.batches -
            if h.ongoing.isSome then 1 else 0 := by
        simp only [hnone, Option.isSome_none, Bool.false_eq_true, if_false]
        omega
      have hrank : (if h.ongoing.isSome then 6 else 7) = 7 := by simp [hnone]
      rw [hrank]
      exact ⟨_, by omega, (fits_asked hpositive hbatches hraced).mono (Nat.le_refl _)
        (Nat.le_refl _) (Nat.le_refl _) hasks fun _ => id⟩

/-- The events are deleted, or that fails, or it takes too long. -/
theorem fits_delete (hbatches : h.cycle.batches < s.worker.settings.maxConsecutiveBatches)
    (due : Nat) : Fits who most σ s (s.delete h due)
      (s.worker.cyclesAfter (s.outbox.delete h.batch.ids) h.batch) (s.worker.pulsesDue s.now)
      (8 * (s.worker.cyclesAfter (s.outbox.delete h.batch.ids) h.batch +
        s.worker.pulsesDue s.now) + 4 + s.worker.unseen σ)
      (s.worker.settings.maxConsecutiveBatches - h.cycle.batches - 1) s.worker.Failed := by
  -- A failure ends the cycle with a positive wait, so it leaves less to do than a deletion.
  have hfailed : ∀ error, Fits who most σ s (s.failBatch h error)
      (s.worker.cyclesAfter (s.outbox.delete h.batch.ids) h.batch) (s.worker.pulsesDue s.now)
      (8 * (s.worker.cyclesAfter (s.outbox.delete h.batch.ids) h.batch +
        s.worker.pulsesDue s.now) + 4 + s.worker.unseen σ)
      (s.worker.settings.maxConsecutiveBatches - h.cycle.batches - 1) s.worker.Failed :=
    fun error => (fits_failBatch hpositive h error).mono (Nat.zero_le _) (Nat.le_refl _)
      (by omega) (Nat.zero_le _) fun _ => id
  unfold delete
  split
  · dsimp only [strike]
    cases (s.host.access.faults.strike .deleteEvents).1 with
    | some error =>
        have hstruck : Fits who most σ _ _ _ _ _ _ _ :=
          fits_failBatch (s := (s.strike .deleteEvents).2) hpositive h (.store error)
        refine Fits.mono (Fits.after (s := s) hstruck (Journal.Adds.refl _ _)) (Nat.zero_le _)
          (Nat.le_refl _) ?_ (Nat.zero_le _) fun _ => id
        show 8 * s.worker.pulsesDue s.now + 3 + s.worker.unseen σ ≤ _
        omega
    | none =>
        refine Fits.imp (Fits.after (?_ : Fits who most σ (s.enter (.deleted s.stamp h.batch.ids
          (s.outbox.count h.batch.ids))) _ _ _ _ _ fun _ _ => False) (plain_cons s.journal rfl))
          fun _ => False.elim
        exact Fits.still rfl (Nat.le_refl _) hbatches
  · exact hfailed _

/-- The worker hears that the events of a batch were deleted. -/
theorem fits_completeBatch (halone : s.worker.retained = none) (count : Nat) :
    Fits who most σ s (s.completeBatch h count) (s.worker.cyclesAfter s.outbox h.batch)
      (s.worker.pulsesDue s.now)
      (8 * (s.worker.cyclesAfter s.outbox h.batch + s.worker.pulsesDue s.now) + 3 +
        s.worker.unseen σ)
      (s.worker.settings.maxConsecutiveBatches - h.cycle.batches - 1)
      fun w' n => w'.stats.batchesApplied = s.worker.stats.batchesApplied + 1 ∧
        (n = s.worker.settings.pollingInterval ∧
            h.batch.events.length < s.worker.settings.batchSize ∨
          n = 0 ∧ s.worker.settings.batchSize ≤ h.batch.events.length) := by
  unfold completeBatch
  dsimp only
  -- Whether fewer events were deleted is reported and makes no difference.
  generalize hreport : (if count < h.batch.events.length then _ else _ : Scene) = s₁
  have hafter : Levels s s₁ ∧ s₁.worker.retained = none ∧
      s₁.worker.stats.batchesApplied = s.worker.stats.batchesApplied + 1 ∧
      s₁.worker.loads s₁.outbox = s.worker.loads s.outbox := by
    rw [← hreport]
    split
    · exact ⟨⟨Nat.le_refl _, rfl, fun _ => rfl, rfl, rfl, plain_cons _ rfl⟩, halone, rfl, rfl⟩
    · exact ⟨⟨Nat.le_refl _, rfl, fun _ => rfl, rfl, rfl, Journal.Adds.refl _ _⟩, halone, rfl, rfl⟩
  rcases hafter with ⟨⟨_, hpulses, hunseen, _, hsettings, hplain⟩, hnone, happlied, hloads⟩
  have hunseen := hunseen σ
  rw [← hsettings] at hpositive ⊢
  split
  · rename_i hshort
    exact (Fits.after (fits_endIdle hpositive.pollingInterval) hplain).mono (Nat.zero_le _)
      (Nat.le_of_eq hpulses) (by omega) (Nat.zero_le _) fun _ hended =>
        ⟨hended.2.1 ▸ happlied, Or.inl ⟨hended.1, hshort⟩⟩
  · rename_i hshort
    have hfull := Nat.le_of_not_lt hshort
    -- A full batch has one cycle to its credit, and the cycle after it or the search draws on that.
    have hafter : s.worker.cyclesAfter s.outbox h.batch = 1 + s.worker.loads s.outbox :=
      if_pos (hsettings ▸ hfull)
    rw [hafter]
    split
    · have hcredit : s₁.worker.credit s₁.outbox = s.worker.loads s.outbox := by
        simp [Worker.credit, hnone, hloads]
      have hended : Fits who most σ s₁ (s₁.endIdle 0) (1 + s₁.worker.credit s₁.outbox)
          (s₁.worker.pulsesDue s₁.now)
          (8 * (1 + s₁.worker.credit s₁.outbox + s₁.worker.pulsesDue s₁.now) + 3 +
            s₁.worker.unseen σ) 0
          fun w' n => n = 0 ∧ w'.stats = s₁.worker.stats ∧ w'.link = s₁.worker.link :=
        Fits.after (s := s₁) (fits_endCycle (s := s₁.becomes .idle) 0) (Journal.Adds.refl _ _)
      rw [hcredit] at hended
      exact (hended.after hplain).mono (Nat.le_refl _) (Nat.le_of_eq hpulses) (by omega)
        (Nat.zero_le _) fun _ hended => ⟨hended.2.1 ▸ happlied, Or.inr ⟨hended.1, hfull⟩⟩
    · rename_i hmore
      simp only [not_or, Nat.not_le] at hmore
      have hnext : Fits who most σ s₁ (s₁.nextBatch { h.cycle with batches := h.cycle.batches + 1 })
          _ _ _ _ _ := fits_search hnone hmore.2.1
      exact (hnext.after hplain).mono (by omega) (Nat.le_of_eq hpulses) (by omega)
        (Nat.le_of_eq (Nat.sub_sub _ _ _).symm) fun _ => False.elim

omit hpositive in
/-- The session in which the agent leaves, and the end. -/
theorem fits_leave (halt : Option Halt) : Fits who most σ s (s.leave halt) 0 0
    (s.worker.unseen σ) 0 fun _ _ => False :=
  Fits.after (s := s) (fits_finish (s := s.attempt fun l => l.leave) halt)
    ((Journal.Adds.refl _ _).addNotices (fun _ => rfl) _)

end Turns

/-- A turn that is due uses no more than there was, and leaves fewer turns than before. -/
theorem resume_fits {bound : Nat} (hpositive : s.worker.settings.Positive)
    (hsound : s.worker.Sound s.host.name s.journal s.now bound) (hpoised : s.worker.Poised)
    (hdue : ∃ first, s.worker.dueAt s.signal = some first ∧ first ≤ s.now) :
    ∃ turns < s.worker.turnsLeft s.now s.outbox s.signal,
      Fits s.stamp.post s.worker.settings.maxConsecutiveBatches s.signal s s.resume
        (s.worker.cyclesLeft s.now s.outbox) (s.worker.pulsesLeft s.now) turns s.worker.asksLeft
        fun w' n => s.worker.Closes s.now w' n := by
  have hbefore := hpoised
  have hwaits := hsound.waits
  unfold Worker.Poised at hbefore
  unfold Worker.Waits at hwaits
  unfold resume Worker.turnsLeft Worker.cyclesLeft Worker.pulsesLeft Worker.asksLeft Worker.rank
  -- There is one law for each wait, and in each the rank falls or a cycle or a pulse is paid for.
  cases hwait : s.worker.wait with
  | launched =>
      exact ⟨_, by dsimp only; omega,
        (fits_launch hpositive rfl (Nat.le_refl _)).imp fun _ hskipped =>
          .pauses (.skipped (Or.inl hwait) hskipped)⟩
  | resting due =>
      rcases fits_wake hpositive rfl (Nat.le_refl _) hwait hpoised hdue with ⟨turns, hlt, hfits⟩
      exact ⟨turns, hlt, hfits.imp fun _ hskipped =>
        .pauses (.skipped (Or.inr (Or.inl ⟨_, hwait⟩)) hskipped)⟩
  | pulsing due started wall =>
      exact ⟨_, by dsimp only; omega,
        (fits_pulse hpositive rfl (Nat.le_refl _) started wall).imp fun _ hskipped =>
          .pauses (.skipped (Or.inr (Or.inr ⟨_, _, _, hwait⟩)) hskipped)⟩
  | polling due cycle =>
      rw [hwait] at hbefore
      exact ⟨_, by dsimp only; omega, (fits_poll hpositive hbefore).imp fun _ hended =>
        .pauses (hended.elim (fun hidle => hidle.1 ▸ .fruitless hwait hidle.2) .lost)⟩
  | applying h =>
      rw [hwait] at hbefore
      rcases fits_apply hpositive hwait hbefore hdue with ⟨turns, hlt, hfits⟩
      exact ⟨turns, hlt, hfits.imp fun _ hended => .pauses (hended.elim .lost .failed)⟩
  | renewing due started wall h =>
      rw [hwait] at hbefore
      exact ⟨_, by dsimp only; omega, (fits_renew hpositive hbefore started wall).imp
        fun _ hlost => .pauses (.lost hlost)⟩
  | deleting due h =>
      rw [hwait] at hbefore
      exact ⟨_, by dsimp only; omega, (fits_delete hpositive hbefore due).imp
        fun _ hfailed => .pauses (.failed hfailed)⟩
  | deleted due count h =>
      rw [hwait] at hbefore hwaits
      dsimp only
      unfold confirm
      split
      · rename_i hle
        refine ⟨_, by omega, (fits_completeBatch hpositive hwaits.alone count).imp ?_⟩
        rintro wait ⟨happlied, ⟨rfl, hshort⟩ | ⟨rfl, hfull⟩⟩
        · exact .pauses (.short hwait hle hshort happlied)
        · exact .completes ⟨_, _, _, hwait, rfl, hle, hfull, happlied⟩
      · exact ⟨_, by omega, (fits_failBatch hpositive h _).mono (Nat.zero_le _) (Nat.le_refl _)
          (Nat.le_refl _) (Nat.zero_le _) fun _ hfailed => .pauses (.failed hfailed)⟩
  | leaving due halt =>
      exact ⟨_, by dsimp only; omega, (fits_leave halt).imp fun _ => False.elim⟩
  -- Who has not been started or has come to its end does not go on.
  | _ =>
      unfold Worker.dueAt at hdue
      rw [hwait] at hdue
      exact nomatch hdue

end Parts

end Scene

end OutboxCluster
