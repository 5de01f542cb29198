import OutboxCluster.Proofs.Turn

/-!
# Where a Turn Ends

A turn of a worker acts on the tables or on its sink at most once, at its beginning.
The rest of it is control: the worker drops a batch or takes one up, begins a cycle or
ends one, and chooses what to wait for next. Control looks at many things and changes
few. It leaves tables, host and link alone, enters only what concerns nobody else, and
comes to wait for one of a few things, each of which says what control has looked at.

`Lands` is the law of control, and the other lemmas split the turns in which more is
done into the act and the control after it. The laws about whole clusters are case
analyses on these, so none of them has to follow control again.

As for what is known of a worker while it waits, `Rolls` is said of the middle of a turn
and `Lands` of its end.

## Main definitions

* `Entry.stamp?`, `Entry.isMark`: Who has made an entry, and whether it is one of
  control.
* `Wait.isOutcome`: What control does not come to.
* `Scene.Berth`: What control has made sure of when it comes to wait.
* `Scene.Rolls`, `Scene.Lands`: During and after control.

## Theorems

* `Rolls.loop`, `Rolls.cycleIfDue`, `Rolls.wake`: Control at the head of the loop.
* `lands_failBatch`, `lands_loseOwnership`, `lands_completeBatch`: Control when a batch
  is done with.
* `poll_outcome`, `poll_cases`: A search and what comes of it.
* `race_cases`: What a worker takes up while its sink has a batch.
* `wait_race_of_timeout`: The sink does not keep a batch when the time allowed is over.
* `outcome_of_resume`: How a deletion has been made, or a pulse has broken down.
-/

namespace OutboxCluster

/-- Who has made an entry, and when; a notice is nobody's. -/
def Entry.stamp? : Entry → Option Stamp
  | .notice _ => none
  | .pulsed who | .renewed who | .cycleBegan who | .cycleEnded who _ | .searched who ..
  | .began who .. | .ended who .. | .deleting who .. | .deleted who .. => some who

/-- An entry that tells of no use of the tables, of no use of the sink, and of no batch that
    was given up. -/
def Entry.isMark : Entry → Bool
  | .notice (.ownershipLost _) => false
  | .notice _ | .cycleBegan _ | .cycleEnded .. => true
  | _ => false

/-- What a worker comes to only by an act of its own on the tables: the word that events were
    deleted is still to come, or its pulse has broken down. -/
def Wait.isOutcome : Wait → Bool
  | .deleted .. | .over .overflown => true
  | _ => false

namespace Scene

/-- The journal has grown by marks of the worker. -/
def Marks (who : Stamp) (j j' : Journal) : Prop :=
  ∃ es, j' = es ++ j ∧ ∀ e ∈ es, e.isMark = true ∧ ∀ who' ∈ e.stamp?, who' = who

theorem Marks.refl (who : Stamp) (j : Journal) : Marks who j j :=
  ⟨[], rfl, fun _ h => absurd h List.not_mem_nil⟩

theorem Marks.cons {who : Stamp} {j j' : Journal} (h : Marks who j j') {e : Entry}
    (hmark : e.isMark = true) (hwho : ∀ who' ∈ e.stamp?, who' = who) : Marks who j (e :: j') := by
  rcases h with ⟨es, rfl, hes⟩
  refine ⟨e :: es, rfl, fun e' he' => ?_⟩
  rcases List.mem_cons.mp he' with rfl | he'
  · exact ⟨hmark, hwho⟩
  · exact hes e' he'

/-- What control that has begun in `s` has made sure of when it comes to wait and has
    left the batch `retained`. -/
def Berth (s : Scene) (retained : Option Batch) : Wait → Prop
  | .resting wake => wake ≤ s.worker.nextPulse
  | .pulsing due started wall => due = s.after .begin ∧ started = s.now ∧ wall = s.wall
  | .polling due cycle => due = s.after .find ∧ retained = none ∧
    cycle.agentId = s.worker.link.snapshot.agentId ∧
    cycle.assignment = s.worker.link.snapshot.assignment ∧ s.canProcess = true
  | .applying h => h.ongoing = none ∧ retained = none ∧
    h.timeoutAt = s.worker.settings.transactionTimeout.map (s.now + ·) ∧
    s.canProcess = true ∧ s.worker.retained = some h.batch ∧
    s.worker.link.snapshot.Bears h.batch
  | .leaving due _ => due = s.after .begin ∧ s.worker.link.selfId ≠ none
  | .over how => how = .finished ∧ s.worker.link.selfId = none
  | _ => False

/-- Control that has begun in `s₀` has come to `s`. -/
structure Rolls (s₀ s : Scene) : Prop where
  now_eq : s.now = s₀.now
  epoch_eq : s.epoch = s₀.epoch
  host_eq : s.host = s₀.host
  agents_eq : s.agents = s₀.agents
  outbox_eq : s.outbox = s₀.outbox
  link_eq : s.worker.link = s₀.worker.link
  settings_eq : s.worker.settings = s₀.worker.settings
  pulse_eq : s.worker.nextPulse = s₀.worker.nextPulse
  consumed_eq : s.worker.stats.eventsConsumed = s₀.worker.stats.eventsConsumed
  marks : Marks s₀.stamp s₀.journal s.journal
  retained : s.worker.retained = none ∨ s.worker.retained = s₀.worker.retained

/-- Control that has begun in `s₀` has come to wait. -/
structure Lands (s₀ s : Scene) : Prop extends Rolls s₀ s where
  berth : s₀.Berth s.worker.retained s.worker.wait

namespace Rolls

variable {s₀ s : Scene}

theorem refl (s : Scene) : Rolls s s :=
  ⟨rfl, rfl, rfl, rfl, rfl, rfl, rfl, rfl, rfl, Marks.refl _ _, Or.inr rfl⟩

theorem stamp_eq (h : Rolls s₀ s) : s.stamp = s₀.stamp := by
  rw [stamp, stamp, Worker.name, Worker.name, h.host_eq, h.link_eq, h.now_eq]

theorem canProcess_eq (h : Rolls s₀ s) : s.canProcess = s₀.canProcess := by
  rw [canProcess, canProcess, h.link_eq, h.now_eq]

theorem after_eq (h : Rolls s₀ s) (point : UsePoint) : s.after point = s₀.after point := by
  rw [after, after, h.host_eq, h.now_eq]

theorem wall_eq (h : Rolls s₀ s) : s.wall = s₀.wall := by
  rw [wall, wall, h.epoch_eq, h.host_eq, h.now_eq]

theorem enter (h : Rolls s₀ s) {e : Entry} (hmark : e.isMark = true)
    (hwho : ∀ who ∈ e.stamp?, who = s.stamp) : Rolls s₀ (s.enter e) :=
  ⟨h.now_eq, h.epoch_eq, h.host_eq, h.agents_eq, h.outbox_eq, h.link_eq, h.settings_eq, h.pulse_eq,
    h.consumed_eq, h.marks.cons hmark (fun who hmem => (hwho who hmem).trans h.stamp_eq),
    h.retained⟩

theorem note (h : Rolls s₀ s) {n : Notice} (hmark : (Entry.notice n).isMark = true) :
    Rolls s₀ (s.note n) :=
  h.enter hmark (fun _ hmem => nomatch hmem)

/-- Control may change what it keeps to itself. -/
theorem private_changed (h : Rolls s₀ s) {s' : Scene} (hjournal : s'.journal = s.journal)
    (hscene : s'.now = s.now ∧ s'.epoch = s.epoch ∧ s'.host = s.host ∧ s'.agents = s.agents ∧
      s'.outbox = s.outbox)
    (hworker : s'.worker.link = s.worker.link ∧ s'.worker.settings = s.worker.settings ∧
      s'.worker.nextPulse = s.worker.nextPulse ∧
      s'.worker.stats.eventsConsumed = s.worker.stats.eventsConsumed)
    (hretained : s'.worker.retained = none ∨ s'.worker.retained = s.worker.retained) :
    Rolls s₀ s' where
  now_eq := hscene.1.trans h.now_eq
  epoch_eq := hscene.2.1.trans h.epoch_eq
  host_eq := hscene.2.2.1.trans h.host_eq
  agents_eq := hscene.2.2.2.1.trans h.agents_eq
  outbox_eq := hscene.2.2.2.2.trans h.outbox_eq
  link_eq := hworker.1.trans h.link_eq
  settings_eq := hworker.2.1.trans h.settings_eq
  pulse_eq := hworker.2.2.1.trans h.pulse_eq
  consumed_eq := hworker.2.2.2.trans h.consumed_eq
  marks := by
    rw [hjournal]
    exact h.marks
  retained := by
    rcases hretained with hnone | heq
    · exact Or.inl hnone
    · rw [heq]
      exact h.retained

/-- Control comes to wait for something. -/
theorem await (h : Rolls s₀ s) {wait : Wait} (hberth : s₀.Berth s.worker.retained wait) :
    Lands s₀ (s.await wait) :=
  ⟨⟨h.now_eq, h.epoch_eq, h.host_eq, h.agents_eq, h.outbox_eq, h.link_eq, h.settings_eq, h.pulse_eq,
    h.consumed_eq, h.marks, h.retained⟩, hberth⟩

theorem becomes (h : Rolls s₀ s) (state : ProcessorState) : Rolls s₀ (s.becomes state) :=
  h.private_changed rfl ⟨rfl, rfl, rfl, rfl, rfl⟩ ⟨rfl, rfl, rfl, rfl⟩ (Or.inr rfl)

theorem rest (h : Rolls s₀ s) : Lands s₀ s.rest := by
  refine h.await ?_
  have hle : min s.worker.nextCycle s.worker.nextPulse ≤ s₀.worker.nextPulse := by
    rw [← h.pulse_eq]
    exact Nat.min_le_right _ _
  exact hle

theorem endCycle (h : Rolls s₀ s) (wait : Nat) : Lands s₀ (s.endCycle wait) := by
  have hentered : Rolls s₀ (s.enter (.cycleEnded s.stamp wait)) :=
    h.enter rfl (fun who hmem => (Option.some.inj hmem).symm)
  unfold Scene.endCycle
  exact rest (hentered.private_changed rfl ⟨rfl, rfl, rfl, rfl, rfl⟩ ⟨rfl, rfl, rfl, rfl⟩
    (Or.inr rfl))

theorem endIdle (h : Rolls s₀ s) (wait : Nat) : Lands s₀ (s.endIdle wait) :=
  (h.becomes .idle).endCycle wait

theorem depart (h : Rolls s₀ s) (halt : Option Halt) : Lands s₀ (s.depart halt) := by
  unfold Scene.depart
  by_cases hself : s.worker.link.selfId.isNone = true
  · rw [if_pos hself]
    rw [h.link_eq, Option.isNone_iff_eq_none] at hself
    cases halt with
    | none => exact ((h.note rfl).becomes .stopped).await ⟨rfl, hself⟩
    | some reason =>
        exact (h.becomes (.halted reason.attempts reason.reason)).await ⟨rfl, hself⟩
  · rw [if_neg hself]
    rw [h.link_eq, Option.isNone_iff_eq_none] at hself
    exact h.await ⟨h.after_eq .begin, hself⟩

/-- A kept batch is dropped unless it is that of agent and shard. -/
theorem dropForeign (h : Rolls s₀ s) : Rolls s₀ s.dropForeign ∧
    ∀ b, s.dropForeign.worker.retained = some b →
      s₀.worker.retained = some b ∧ s₀.worker.link.snapshot.Bears b := by
  unfold Scene.dropForeign
  cases hretained : s.worker.retained with
  | none => exact ⟨h, fun b hb => nomatch hretained.symm.trans hb⟩
  | some batch =>
      have hbefore : s₀.worker.retained = some batch := by
        rcases h.retained with hnone | heq
        · exact nomatch hnone.symm.trans hretained
        · exact heq.symm.trans hretained
      dsimp only
      -- A batch that is kept has passed the test, and one that is given up leaves no trace.
      by_cases hown : s.canProcess = true ∧ s.worker.link.snapshot.agentId = batch.agentId ∧
          s.worker.link.snapshot.assignment = batch.assignment
      · rw [if_pos hown]
        refine ⟨h, fun b hb => ?_⟩
        rw [← Option.some.inj (hretained.symm.trans hb)]
        rw [h.link_eq] at hown
        exact ⟨hbefore, hown.2⟩
      · rw [if_neg hown]
        refine ⟨?_, fun _ hb => nomatch hb⟩
        exact (h.note rfl).private_changed rfl ⟨rfl, rfl, rfl, rfl, rfl⟩ ⟨rfl, rfl, rfl, rfl⟩
          (Or.inl rfl)

/-- A kept batch is handed on again, and without one a search begins. -/
theorem nextBatch (h : Rolls s₀ s) {cycle : Cycle}
    (hagent : cycle.agentId = s₀.worker.link.snapshot.agentId)
    (hshard : cycle.assignment = s₀.worker.link.snapshot.assignment)
    (hcan : s₀.canProcess = true)
    (hkept : ∀ b, s.worker.retained = some b →
      s₀.worker.retained = some b ∧ s₀.worker.link.snapshot.Bears b) :
    Lands s₀ (s.nextBatch cycle) := by
  unfold Scene.nextBatch
  cases hretained : s.worker.retained with
  | none =>
      exact (h.becomes .polling).await ⟨h.after_eq .find, hretained, hagent, hshard, hcan⟩
  | some batch =>
      rcases hkept batch hretained with ⟨hbefore, hbears⟩
      have htaken : Rolls s₀ { s with worker.retained := none } :=
        h.private_changed rfl ⟨rfl, rfl, rfl, rfl, rfl⟩ ⟨rfl, rfl, rfl, rfl⟩ (Or.inl rfl)
      have hcan' :
          (({ s with worker.retained := none } : Scene).becomes .applying).canProcess = true :=
        (htaken.becomes .applying).canProcess_eq.trans hcan
      -- The agent may process, so the sink keeps the batch.
      dsimp only [Scene.handOver, Scene.keepApplying]
      rw [if_pos hcan']
      refine (htaken.becomes .applying).await ⟨rfl, rfl, ?_, hcan, hbefore, hbears⟩
      rw [← h.settings_eq, ← h.now_eq]

/-- A cycle has been entered in the journal, and begins. -/
theorem begun (hentered : Rolls s₀ (s.enter (.cycleBegan s.stamp))) : Lands s₀ s.beginCycle := by
  rcases hentered.dropForeign with ⟨hdropped, hkept⟩
  unfold Scene.beginCycle
  dsimp only
  by_cases hcan : ((s.enter (.cycleBegan s.stamp)).dropForeign).canProcess = true
  · rw [if_pos hcan]
    exact hdropped.nextBatch (by rw [hdropped.link_eq]) (by rw [hdropped.link_eq])
      (hdropped.canProcess_eq.symm.trans hcan) hkept
  · rw [if_neg hcan]
    exact hdropped.endIdle _

theorem beginCycle (h : Rolls s₀ s) : Lands s₀ s.beginCycle :=
  begun (h.enter rfl fun _ hmem => (Option.some.inj hmem).symm)

theorem cycleIfDue (h : Rolls s₀ s) : Lands s₀ s.cycleIfDue := by
  unfold Scene.cycleIfDue
  by_cases hdue : s.worker.nextCycle ≤ s.now
  · rw [if_pos hdue]
    exact h.beginCycle
  · rw [if_neg hdue]
    exact h.rest

theorem loop (h : Rolls s₀ s) : Lands s₀ s.loop := by
  unfold Scene.loop
  by_cases hraised : s.signal.raised = true
  · rw [if_pos hraised]
    exact h.depart none
  · rw [if_neg hraised]
    by_cases hpulse : s.worker.nextPulse ≤ s.now
    · rw [if_pos hpulse]
      exact h.await ⟨h.after_eq .begin, h.now_eq, h.wall_eq⟩
    · rw [if_neg hpulse]
      exact h.cycleIfDue

theorem launch (h : Rolls s₀ s) : Lands s₀ s.launch := by
  unfold Scene.launch
  exact loop ((h.note rfl).private_changed rfl ⟨rfl, rfl, rfl, rfl, rfl⟩ ⟨rfl, rfl, rfl, rfl⟩
    (Or.inr rfl))

theorem wake (h : Rolls s₀ s) (due : Nat) : Lands s₀ (s.wake due) := by
  rcases s.wake_cases due with heq | heq | heq <;> rw [heq]
  · exact h.loop
  · exact loop (h.private_changed rfl ⟨rfl, rfl, rfl, rfl, rfl⟩ ⟨rfl, rfl, rfl, rfl⟩ (Or.inr rfl))
  · exact h.depart none

end Rolls

section Batches

variable {s : Scene} {h : Handover}

/-- A batch that has failed is kept, or the worker gives up. -/
theorem lands_failBatch (halone : s.worker.retained = none) (error : CoordinationError) :
    Lands { s with worker.retained := some h.batch.failed } (s.failBatch h error) := by
  have hcounted : Rolls { s with worker.retained := some h.batch.failed }
      { s with worker.stats.failedAttempts := s.worker.stats.failedAttempts + 1 } :=
    ⟨rfl, rfl, rfl, rfl, rfl, rfl, rfl, rfl, rfl, Marks.refl _ _, Or.inl halone⟩
  have hkept : Rolls { s with worker.retained := some h.batch.failed }
      { s with
        worker.stats.failedAttempts := s.worker.stats.failedAttempts + 1
        worker.retained := some h.batch.failed } :=
    ⟨rfl, rfl, rfl, rfl, rfl, rfl, rfl, rfl, rfl, Marks.refl _ _, Or.inr rfl⟩
  unfold Scene.failBatch
  dsimp only
  split
  · exact (hcounted.note rfl).depart _
  · exact ((hkept.note rfl).becomes _).endCycle _

/-- A batch is given up, and that has been reported. -/
theorem lands_loseOwnership :
    Lands (s.note (.ownershipLost h.batch.events.length)) (s.loseOwnership h) := by
  have hcounted : Rolls (s.note (.ownershipLost h.batch.events.length))
      { s.note (.ownershipLost h.batch.events.length) with
        worker.stats.discardedBatches := s.worker.stats.discardedBatches + 1 } :=
    (Rolls.refl _).private_changed rfl ⟨rfl, rfl, rfl, rfl, rfl⟩ ⟨rfl, rfl, rfl, rfl⟩ (Or.inr rfl)
  exact hcounted.endIdle _

/-- A batch is done, and the next one is for the same agent and shard. -/
theorem lands_completeBatch (halone : s.worker.retained = none)
    (hagent : h.cycle.agentId = s.worker.link.snapshot.agentId)
    (hshard : h.cycle.assignment = s.worker.link.snapshot.assignment) (count : Nat) :
    Lands { s with
        worker.stats.eventsConsumed := s.worker.stats.eventsConsumed + h.batch.events.length }
      (s.completeBatch h count) := by
  unfold Scene.completeBatch
  dsimp only
  have hcounted : Rolls
      { s with
        worker.stats.eventsConsumed := s.worker.stats.eventsConsumed + h.batch.events.length }
      { s with
        worker.stats.batchesApplied := s.worker.stats.batchesApplied + 1
        worker.stats.eventsConsumed := s.worker.stats.eventsConsumed + h.batch.events.length } :=
    ⟨rfl, rfl, rfl, rfl, rfl, rfl, rfl, rfl, rfl, Marks.refl _ _, Or.inr rfl⟩
  -- Whether fewer events were deleted is reported and makes no difference.
  generalize hreport : (if count < h.batch.events.length then _ else _ : Scene) = s'
  have hafter : Rolls { s with
        worker.stats.eventsConsumed := s.worker.stats.eventsConsumed + h.batch.events.length } s' ∧
      s'.worker.retained = none := by
    rw [← hreport]
    split
    · exact ⟨hcounted.note rfl, halone⟩
    · exact ⟨hcounted, halone⟩
  rcases hafter with ⟨hrolls, hnone⟩
  split
  · exact hrolls.endIdle _
  · split
    · exact hrolls.endIdle _
    · rename_i hstops
      rw [not_or, not_or, not_or, Bool.not_eq_true', Bool.not_eq_false] at hstops
      exact hrolls.nextBatch hagent hshard (hrolls.canProcess_eq.symm.trans hstops.2.2.1)
        (fun b hb => nomatch hnone.symm.trans hb)

end Batches

/-- A search has used up its point and is in the journal. -/
def searched (s : Scene) (cycle : Cycle) (found : Option (List OutboxEvent)) : Scene :=
  (s.strike .find).2.enter (.searched s.stamp s.worker.link.snapshot cycle.assignment found)

/-- The batch that a search has found for a cycle, before it is handed on. -/
def taken (s : Scene) (cycle : Cycle) (events : List OutboxEvent) : Handover :=
  { cycle, batch := { events, agentId := cycle.agentId, assignment := cycle.assignment }
    timeoutAt := s.worker.settings.transactionTimeout.map (s.now + ·) }

/-- A search finds nothing, or it fails, or the worker has events in hand for the cycle if
    it may process, and gives them up if not. -/
theorem poll_outcome (s : Scene) (cycle : Cycle) :
    (∃ found, found.getD [] = [] ∧ Lands (s.searched cycle found) (s.poll cycle)) ∨
    ∃ events, s.outbox.search cycle.assignment s.worker.settings.batchSize = .ok events ∧
      events ≠ [] ∧
      (s.canProcess = true ∧ s.poll cycle = ((s.searched cycle (some events)).becomes
          .applying).await (.applying (s.taken cycle events)) ∨
        s.canProcess = false ∧ s.poll cycle = ((s.searched cycle (some events)).becomes
          .applying).loseOwnership (s.taken cycle events)) := by
  unfold poll
  dsimp only [strike]
  -- A search that fails, one that is unreadable and one that finds nothing end the cycle.
  cases hstrike : (s.host.access.faults.strike .find).1 with
  | some error =>
      exact Or.inl ⟨none, rfl, ((Rolls.refl (s.searched cycle none)).note rfl).endIdle _⟩
  | none =>
      dsimp only
      cases hsearch : s.outbox.search cycle.assignment s.worker.settings.batchSize with
      | error e =>
          exact Or.inl ⟨none, rfl, ((Rolls.refl (s.searched cycle none)).note rfl).endIdle _⟩
      | ok events =>
          dsimp only
          by_cases hempty : events.isEmpty = true
          · rw [if_pos hempty]
            exact Or.inl ⟨some events, List.isEmpty_iff.mp hempty,
              (Rolls.refl (s.searched cycle (some events))).endIdle _⟩
          · rw [if_neg hempty]
            refine Or.inr ⟨events, rfl, fun hnil => hempty (List.isEmpty_iff.mpr hnil), ?_⟩
            dsimp only [handOver, keepApplying]
            cases hcan : s.canProcess with
            | true => exact Or.inl ⟨rfl, if_pos hcan⟩
            | false => exact Or.inr ⟨rfl, if_neg (Bool.eq_false_iff.mp hcan)⟩

theorem poll_cases (s : Scene) (cycle : Cycle) :
    (∃ found, Lands (s.searched cycle found) (s.poll cycle)) ∨
    ∃ events, s.outbox.search cycle.assignment s.worker.settings.batchSize = .ok events ∧
      events ≠ [] ∧
      (s.canProcess = true ∧ s.poll cycle = ((s.searched cycle (some events)).becomes
          .applying).await (.applying (s.taken cycle events)) ∨
        s.canProcess = false ∧ s.poll cycle = ((s.searched cycle (some events)).becomes
          .applying).loseOwnership (s.taken cycle events)) :=
  (poll_outcome s cycle).imp_left fun ⟨found, _, hlands⟩ => ⟨found, hlands⟩

/-- The sink has the batch: it has been given it before, or is given it now. -/
inductive Asked (s : Scene) (h : Handover) : Scene → Handover → Prop where
  | before : Asked s h s h
  | now : h.ongoing = none → Asked s h (s.askSink h).1 { h with ongoing := some (s.askSink h).2 }

/-- What a worker takes up while its sink has a batch: nothing, the word of the sink, a
    renewal, the end of the lease, or the end of the time allowed. -/
inductive Raced (s : Scene) (h : Handover) : Scene → Prop where
  | nothing : Raced s h (s.await (.applying h))
  | sink {due : Nat} {ending : Ending} : h.ongoing = some (due, ending) → due ≤ s.now →
      Raced s h (s.sinkDone h ending)
  | renewal : s.worker.nextPulse ≤ s.now → Raced s h (s.beginRenewal h)
  | deadline : s.canProcess = false → Raced s h (s.loseOwnership h)
  | timeout {at_ : Nat} : h.timeoutAt = some at_ → at_ ≤ s.now → Raced s h (s.timeOut h)

/-- After the end of the lease nothing may be processed. -/
theorem canProcess_of_lapsed {s : Scene}
    (h : s.worker.link.snapshot.leaseDeadline.any (· ≤ s.now) = true) : s.canProcess = false := by
  refine Bool.eq_false_iff.mpr (fun hcan => ?_)
  rcases Snapshot.canProcess_iff.mp hcan with ⟨_, deadline, hdeadline, hlt⟩
  rw [hdeadline, Option.any_some, decide_eq_true_iff] at h
  omega

/-- Every branch is looked at, wherever the worker begins. -/
theorem mem_branches (b : Branch) (k : Nat) :
    b ∈ [Branch.sink, .renewal, .deadline, .timeout].rotateLeft k := by
  simp only [List.rotateLeft, List.length_cons, List.length_nil]
  have hsplit := List.take_append_drop (k % 4) [Branch.sink, .renewal, .deadline, .timeout]
  have hmem : b ∈ [Branch.sink, .renewal, .deadline, .timeout] := by
    cases b <;> simp
  rw [← hsplit, List.mem_append] at hmem
  exact List.mem_append.mpr hmem.symm

/-- Whatever is taken up, the sink has been asked at most once before. -/
theorem race_cases (s : Scene) (h : Handover) (branches : List Branch) :
    ∃ s' h', Asked s h s' h' ∧ Raced s' h' (s.race h branches) := by
  -- Until the sink is looked at the scene is as it was, and from then on it is asked.
  have hasked : ∀ branches (s : Scene) (h : Handover) due ending,
      h.ongoing = some (due, ending) → Raced s h (s.race h branches) := by
    intro branches
    induction branches with
    | nil => exact fun s h _ _ _ => Raced.nothing
    | cons branch rest ih =>
        intro s h due ending hongoing
        cases branch with
        | sink =>
            have hsame : { h with ongoing := some (due, ending) } = h := by rw [← hongoing]
            simp only [race, hongoing]
            rw [hsame]
            by_cases hdue : due ≤ s.now
            · rw [if_pos hdue]
              exact Raced.sink hongoing hdue
            · rw [if_neg hdue]
              exact ih s h due ending hongoing
        | renewal =>
            unfold race
            by_cases hdue : s.worker.nextPulse ≤ s.now
            · rw [if_pos hdue]
              exact Raced.renewal hdue
            · rw [if_neg hdue]
              exact ih s h due ending hongoing
        | deadline =>
            unfold race
            split
            · rename_i hlapsed
              exact Raced.deadline (canProcess_of_lapsed hlapsed)
            · exact ih s h due ending hongoing
        | timeout =>
            unfold race
            by_cases hdue : h.timeoutAt.any (· ≤ s.now) = true
            · rw [if_pos hdue]
              rcases (Option.any_eq_true _ _).mp hdue with ⟨at_, heq, hle⟩
              exact Raced.timeout heq (of_decide_eq_true hle)
            · rw [if_neg hdue]
              exact ih s h due ending hongoing
  cases hongoing : h.ongoing with
  | some ongoing => exact ⟨s, h, Asked.before, hasked branches s h ongoing.1 ongoing.2 hongoing⟩
  | none =>
      induction branches with
      | nil => exact ⟨s, h, Asked.before, Raced.nothing⟩
      | cons branch rest ih =>
          cases branch with
          | sink =>
              refine ⟨_, _, Asked.now hongoing, ?_⟩
              simp only [race, hongoing]
              by_cases hdue : (s.askSink h).2.1 ≤ (s.askSink h).1.now
              · rw [if_pos hdue]
                exact Raced.sink rfl hdue
              · rw [if_neg hdue]
                exact hasked rest _ _ _ _ rfl
          | renewal =>
              unfold race
              by_cases hdue : s.worker.nextPulse ≤ s.now
              · rw [if_pos hdue]
                exact ⟨s, h, Asked.before, Raced.renewal hdue⟩
              · rw [if_neg hdue]
                exact ih
          | deadline =>
              unfold race
              split
              · rename_i hlapsed
                exact ⟨s, h, Asked.before, Raced.deadline (canProcess_of_lapsed hlapsed)⟩
              · exact ih
          | timeout =>
              unfold race
              by_cases hdue : h.timeoutAt.any (· ≤ s.now) = true
              · rw [if_pos hdue]
                rcases (Option.any_eq_true _ _).mp hdue with ⟨at_, heq, hle⟩
                exact ⟨s, h, Asked.before, Raced.timeout heq (of_decide_eq_true hle)⟩
              · rw [if_neg hdue]
                exact ih

/-- Who has failed, or is done with its sink, does not wait for the sink. -/
theorem wait_failBatch (s : Scene) (h : Handover) (error : CoordinationError) (h' : Handover) :
    (s.failBatch h error).worker.wait ≠ .applying h' := by
  unfold failBatch depart finish
  dsimp only
  split <;> (try split) <;> exact Wait.noConfusion

theorem wait_sinkDone (s : Scene) (h : Handover) (ending : Ending) (h' : Handover) :
    (s.sinkDone h ending).worker.wait ≠ .applying h' := by
  unfold sinkDone
  cases ending with
  | broken => exact Wait.noConfusion
  | refused message => exact wait_failBatch _ _ _ _
  | accepted =>
      dsimp only
      split <;> exact Wait.noConfusion

/-- The time allowed is one of the branches, so when it is over the batch does not stay with the
    sink. -/
theorem wait_race_of_timeout {branches : List Branch} (hmem : .timeout ∈ branches) {s : Scene}
    {h : Handover} (hover : h.timeoutAt.any (· ≤ s.now) = true) (h' : Handover) :
    (s.race h branches).worker.wait ≠ .applying h' := by
  induction branches generalizing s h with
  | nil => exact absurd hmem List.not_mem_nil
  | cons branch rest ih =>
      cases branch with
      | sink =>
          have hrest : .timeout ∈ rest := by simpa using hmem
          unfold race
          -- That the sink is asked changes neither the instant nor the time allowed.
          cases h.ongoing with
          | some ongoing =>
              dsimp only
              split
              · exact wait_sinkDone _ _ _ _
              · exact ih hrest hover
          | none =>
              dsimp only
              split
              · exact wait_sinkDone _ _ _ _
              · exact ih hrest hover
      | renewal =>
          have hrest : .timeout ∈ rest := by simpa using hmem
          unfold race
          split
          · exact Wait.noConfusion
          · exact ih hrest hover
      | deadline =>
          have hrest : .timeout ∈ rest := by simpa using hmem
          unfold race
          split
          · exact Wait.noConfusion
          · exact ih hrest hover
      | timeout =>
          unfold race
          rw [if_pos hover]
          exact wait_failBatch _ _ _ _

section Outcomes

variable {s s₁ s' : Scene} {h h' : Handover} {due count : Nat}

theorem Lands.isOutcome_eq (hlands : Lands s₁ s') : s'.worker.wait.isOutcome = false := by
  have hberth := hlands.berth
  cases hwait : s'.worker.wait with
  | deleted due count h =>
      rw [hwait] at hberth
      exact hberth.elim
  | «over» how =>
      rw [hwait] at hberth
      rw [hberth.1]
      rfl
  | _ => rfl

theorem isOutcome_sinkDone (halone : s.worker.retained = none) (ending : Ending) :
    (s.sinkDone h ending).worker.wait.isOutcome = false := by
  cases ending with
  | broken => rfl
  | refused message =>
      exact (lands_failBatch (s := s.enter (.ended s.stamp h.batch (.refused message)))
        halone _).isOutcome_eq
  | accepted =>
      dsimp only [sinkDone]
      split <;> rfl

theorem isOutcome_race (halone : s.worker.retained = none) (branches : List Branch) :
    (s.race h branches).worker.wait.isOutcome = false := by
  rcases race_cases s h branches with ⟨s₁, h₁, hasked, hraced⟩
  have halone₁ : s₁.worker.retained = none := by
    cases hasked <;> exact halone
  generalize s.race h branches = s' at hraced ⊢
  cases hraced with
  | nothing | renewal _ | deadline _ => rfl
  | sink _ _ => exact isOutcome_sinkDone halone₁ _
  | timeout _ _ => exact (lands_failBatch halone₁ _).isOutcome_eq

/-- Who has turned to a deletion and comes to such a wait has made the deletion. -/
theorem outcome_of_delete {before : Nat} (halone : s.worker.retained = none)
    (hwait : (s.delete h before).worker.wait.isOutcome = true) :
    ∃ due count, (s.delete h before).worker.wait = .deleted due count h ∧
      (s.delete h before).journal = .deleted s.stamp h.batch.ids count :: s.journal := by
  unfold delete at hwait ⊢
  split at hwait
  · rename_i hdue
    rw [if_pos hdue]
    dsimp only [strike] at hwait ⊢
    cases hstrike : (s.host.access.faults.strike .deleteEvents).1 with
    | some error =>
        rw [hstrike] at hwait
        have hlands := lands_failBatch (h := h) (s := (s.strike .deleteEvents).2) halone
          (.store error)
        exact nomatch hlands.isOutcome_eq.symm.trans hwait
    | none => exact ⟨_, _, rfl, rfl⟩
  · exact nomatch (lands_failBatch halone _).isOutcome_eq.symm.trans hwait

/-- A deletion or a pulse that has broken down is the first thing that a worker has done in its
    turn, unless it had come to its end before. -/
theorem outcome_of_resume {bound : Nat}
    (hsound : s.worker.Sound s.host.name s.journal s.now bound)
    (hwait : s.resume.worker.wait.isOutcome = true) :
    (∃ how, s.worker.wait = .over how ∧ s.resume = s) ∨
    (∃ due started wall, s.worker.wait = .pulsing due started wall ∧
      s.breaksDown (fun l => l.pulse ⟨started, wall, s.now⟩) = true ∧
      s.resume.worker.wait = .over .overflown) ∨
    ∃ before due count h, s.worker.wait = .deleting before h ∧
      s.resume.worker.wait = .deleted due count h ∧
      s.resume.journal = .deleted s.stamp h.batch.ids count :: s.journal := by
  have hwaits := hsound.waits
  unfold Worker.Waits at hwaits
  unfold resume at hwait ⊢
  -- A turn can give an outcome from three waits. From the others it lands elsewhere.
  cases hbefore : s.worker.wait with
  | held =>
      rw [hbefore] at hwait
      dsimp only at hwait
      rw [hbefore] at hwait
      cases hwait
  | «over» how => exact Or.inl ⟨how, rfl, rfl⟩
  | launched =>
      rw [hbefore] at hwait
      exact nomatch (Rolls.refl s).launch.isOutcome_eq.symm.trans hwait
  | resting wake =>
      rw [hbefore] at hwait
      exact nomatch ((Rolls.refl s).wake wake).isOutcome_eq.symm.trans hwait
  | pulsing due started wall =>
      rw [hbefore] at hwait
      dsimp only at hwait ⊢
      rcases s.pulse_cases started wall with ⟨hbroken, heq⟩ | ⟨_, heq⟩
      · exact Or.inr (Or.inl ⟨due, started, wall, rfl, hbroken, heq ▸ rfl⟩)
      · rw [heq] at hwait
        exact nomatch (Rolls.refl _).cycleIfDue.isOutcome_eq.symm.trans hwait
  | polling due cycle =>
      rw [hbefore] at hwait
      dsimp only at hwait
      rcases poll_cases s cycle with ⟨found, hlands⟩ | ⟨events, _, _, ⟨_, heq⟩ | ⟨_, heq⟩⟩
      · exact nomatch hlands.isOutcome_eq.symm.trans hwait
      · rw [heq] at hwait
        exact nomatch hwait
      · rw [heq] at hwait
        exact nomatch hwait
  | applying h' =>
      rw [hbefore] at hwait hwaits
      exact nomatch (isOutcome_race hwaits.1.alone _).symm.trans hwait
  | renewing due started wall h' =>
      rw [hbefore] at hwait
      dsimp only [renew, keepApplying] at hwait
      split at hwait <;> exact nomatch hwait
  | deleting due h' =>
      rw [hbefore] at hwait hwaits
      rcases outcome_of_delete hwaits.alone hwait with ⟨due', count, hdeleted, hjournal⟩
      exact Or.inr (Or.inr ⟨due, due', count, h', rfl, hdeleted, hjournal⟩)
  | deleted due' count' h' =>
      rw [hbefore] at hwait hwaits
      dsimp only [confirm] at hwait
      split at hwait
      · exact nomatch (lands_completeBatch hwaits.alone hwaits.agent hwaits.shard
          count').isOutcome_eq.symm.trans hwait
      · exact nomatch (lands_failBatch hwaits.alone _).isOutcome_eq.symm.trans hwait
  | leaving due' halt =>
      rw [hbefore] at hwait
      cases halt <;> exact nomatch hwait

end Outcomes

end Scene

end OutboxCluster
