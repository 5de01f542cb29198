import OutboxCluster.Proofs.Atomic
import OutboxCluster.Proofs.Persist

/-!
# Winding up

A worker that is asked to stop does not drop what it has in hand. It looks at the request only
where it would take up something new: at the head of its loop, when it rests, and between two
batches. An attempt that is under way goes on as if there was no request, with its renewals,
and comes out as it would have. Then the worker leaves the cluster, and shows that it has
stopped, or that it has given up if this was the last attempt allowed.

`Scene.Flies` says what may become of a batch in a turn while the sink has it, and
`Worker.Winds` how far a worker has come since the request was made, with what it has entered
in the journal since. The second is made up from the first, turn by turn.

No use of the tables takes time here. Otherwise a worker could be asked to stop in the middle
of a cycle, before it has given its sink the batch, and would still do so.

## Main definitions

* `Entry.isStart`, `Entry.isRemoval`: What is taken up, and what is taken away.
* `Worker.AtSink`, `Worker.Bides`: What a worker waits for that takes time.
* `Handover.Granted`, `Worker.Blames`, `Worker.verdict`: How an attempt comes out.
* `Worker.Quits`, `Worker.Settled`, `Worker.Winds`: How far a worker has come.
* `Scene.Flies`, `Scene.Flight`, `Scene.Ceases`: One turn.
* `Scene.Disposes`: What a turn does with the batch in hand and the record of the agent.

## Theorems

* `flight_resume`: A turn of a worker whose sink has a batch.
* `delete_outcome`: Its events are deleted, unless the outbox refuses to.
* `quits_resume`: A turn of a worker that leaves.
* `winds_resume`: A turn of a worker that was asked to stop.
* `resume_withSignal`: Until an attempt is over the request makes no difference.
* `disposes`: What every turn does.
-/

namespace OutboxCluster

namespace Entry

/-- Something new is taken up: a cycle, a search, or a batch that is given to the sink. -/
def isStart : Entry → Bool
  | .cycleBegan _ | .searched .. | .began .. => true
  | _ => false

/-- The outbox is asked to delete events, or they are deleted. -/
def isRemoval : Entry → Bool
  | .deleting .. | .deleted .. => true
  | _ => false

/-- Nothing is taken up and nothing is taken away. -/
structure Tame (e : Entry) : Prop where
  start : e.isStart = false
  removal : e.isRemoval = false

theorem isDeletion_of_isRemoval {e : Entry} (h : e.isRemoval = false) : e.isDeletion = false := by
  cases e with
  | deleting | deleted => cases h
  | _ => rfl

end Entry

/-- The sink has accepted the batch while the agent could process, and the outbox was asked to
    delete its events. -/
def Handover.Granted (h : Handover) (es : List Entry) : Prop :=
  ∃ who snapshot, .ended who h.batch .accepted ∈ es ∧ .deleting who snapshot h.batch ∈ es ∧
    snapshot.canProcess who.time = true

theorem Handover.Granted.append {h : Handover} {es : List Entry} (hgranted : h.Granted es)
    (es' : List Entry) : h.Granted (es' ++ es) := by
  rcases hgranted with ⟨who, snapshot, hended, hdeleting, hcan⟩
  exact ⟨who, snapshot, List.mem_append_right _ hended, List.mem_append_right _ hdeleting, hcan⟩

/-- What a worker shows in the end. -/
def ProcessorState.last : Option Halt → ProcessorState
  | none => .stopped
  | some halt => .halted halt.attempts halt.reason

namespace Worker

/-- The sink has the batch. If the lease is being renewed meanwhile, that takes no time. -/
def AtSink (w : Worker) (now : Nat) (h : Handover) : Prop :=
  h.ongoing.isSome ∧ (w.wait = .applying h ∨
    ∃ due started wall, w.wait = .renewing due started wall h ∧ due ≤ now)

/-- The worker waits for something that takes time: for its next cycle, or for its sink. -/
def Bides (w : Worker) (now : Nat) : Prop :=
  (∃ wake, w.wait = .resting wake) ∨ ∃ h, w.AtSink now h

/-- The worker rests, or it is about to leave or has left. In the end it shows why it has given
    up, if it has. -/
inductive Quits (w : Worker) (now : Nat) : Option Halt → Prop where
  | rests {wake : Nat} : w.wait = .resting wake → Quits w now none
  | leaves {due : Nat} {halt : Option Halt} : w.wait = .leaving due halt → due ≤ now →
      Quits w now halt
  | gone {halt : Option Halt} : w.wait = .over .finished → w.state = .last halt →
      w.link.selfId = none → Quits w now halt

/-- Why an attempt has failed. -/
inductive Blames (w : Worker) (h : Handover) (now : Nat) (es : List Entry) :
    CoordinationError → Prop where
  /-- The sink has refused the batch. -/
  | refused {who : Stamp} {message : String} : .ended who h.batch (.refused message) ∈ es →
      Blames w h now es (.sink ⟨message, []⟩)
  /-- The time allowed was over before the sink was done. -/
  | late {limit : Nat} : h.timeoutAt = some limit → limit ≤ now →
      Blames w h now es (.transactionTimeout (w.settings.transactionTimeout.getD 0 * 1000000))
  /-- The sink has accepted the batch, and its events could not be deleted. -/
  | undeleted {error : StoreError} : h.Granted es → Blames w h now es (.store error)

/-- What a failed attempt comes to: the worker gives up if it was the last one allowed. -/
def verdict (w : Worker) (h : Handover) (error : CoordinationError) : Option Halt :=
  if w.settings.retryPolicy.isExhausted (h.batch.attempts + 1) then
    some ⟨h.batch.attempts + 1, error.message⟩
  else none

/-- How that came out for which the worker `w` has waited, where `es` was entered since: what it
    has counted by now, and why it gives up, if it does. -/
inductive Settled (w : Worker) (now : Nat) (es : List Entry) : Stats → Option Halt → Prop where
  /-- It has waited for its next cycle. -/
  | idle : w.handover? = none → (∀ e ∈ es, e.isRemoval = false) → Settled w now es w.stats none
  /-- Its sink has accepted the batch, and the events were deleted. -/
  | done {h : Handover} {who : Stamp} {count : Nat} : w.handover? = some h → h.Granted es →
      .deleted who h.batch.ids count ∈ es →
      Settled w now es { w.stats with
        batchesApplied := w.stats.batchesApplied + 1
        eventsConsumed := w.stats.eventsConsumed + h.batch.events.length } none
  /-- The attempt has failed, and no events were deleted. -/
  | failed {h : Handover} {error : CoordinationError} : w.handover? = some h →
      w.Blames h now es error → (∀ e ∈ es, e.isDeletion = false) →
      Settled w now es { w.stats with failedAttempts := w.stats.failedAttempts + 1 }
        (w.verdict h error)
  /-- The agent could not process any more, and the batch was given up. -/
  | lost {h : Handover} : w.handover? = some h → (∀ e ∈ es, e.isRemoval = false) →
      Settled w now es { w.stats with discardedBatches := w.stats.discardedBatches + 1 } none

/-- How far the worker `w` has come that was asked to stop while it waited. By now it is `w'`, and
    it has entered `es` since. -/
inductive Winds (w : Worker) (now : Nat) (es : List Entry) (w' : Worker) : Prop where
  /-- The sink still has the batch. -/
  | flies {h : Handover} : w.handover? = some h → w'.AtSink now h → w'.stats = w.stats →
      (∀ e ∈ es, e.isRemoval = false) → Winds w now es w'
  /-- The events are to be deleted. -/
  | deletes {h : Handover} {due : Nat} : w.handover? = some h → w'.wait = .deleting due h →
      due ≤ now → w'.stats = w.stats → h.Granted es → (∀ e ∈ es, e.isDeletion = false) →
      Winds w now es w'
  /-- The events were deleted, and the worker is to hear of it. -/
  | confirms {h : Handover} {due count : Nat} {who : Stamp} : w.handover? = some h →
      w'.wait = .deleted due count h → due ≤ now → w'.stats = w.stats → h.Granted es →
      .deleted who h.batch.ids count ∈ es → Winds w now es w'
  /-- The attempt is over, or there was none. -/
  | quits {halt : Option Halt} : w'.Quits now halt → w.Settled now es w'.stats halt →
      Winds w now es w'
  /-- The sink has broken down, and the worker with it. -/
  | breaks {h : Handover} {due : Nat} : w.handover? = some h → h.ongoing = some (due, .broken) →
      w'.wait = .over .broken → (∀ e ∈ es, e.isRemoval = false) → Winds w now es w'

variable {w w' : Worker} {h : Handover} {now now' : Nat} {es es' : List Entry} {halt : Option Halt}

theorem verdict_congr (hsettings : w'.settings = w.settings) : w'.verdict = w.verdict := by
  funext h error
  rw [verdict, verdict, hsettings]

theorem AtSink.handover?_eq (hsink : w.AtSink now h) : w.handover? = some h := by
  rcases hsink.2 with hwait | ⟨_, _, _, hwait, _⟩ <;> rw [handover?, hwait]

/-- At first nothing has become of what the worker waits for. -/
theorem Bides.winds (hbides : w.Bides now) : w.Winds now [] w := by
  rcases hbides with ⟨wake, hwait⟩ | ⟨h, hsink⟩
  · refine .quits (.rests hwait) (.idle ?_ fun _ he => absurd he List.not_mem_nil)
    rw [handover?, hwait]
  · exact .flies hsink.handover?_eq hsink rfl fun _ he => absurd he List.not_mem_nil

/-- Who has been asked to stop while it waited has been started. -/
theorem Winds.ne_held (hwinds : w.Winds now es w') : w'.wait ≠ .held := by
  intro hheld
  cases hwinds with
  | flies _ hsink _ _ =>
      rcases hsink.2 with hwait | ⟨_, _, _, hwait, _⟩ <;> cases hheld.symm.trans hwait
  | quits hquits _ =>
      cases hquits with
      | rests hwait | leaves hwait _ | gone hwait _ _ => cases hheld.symm.trans hwait
  | deletes _ hwait _ _ _ _ | confirms _ hwait _ _ _ _ | breaks _ _ hwait _ =>
      cases hheld.symm.trans hwait

theorem AtSink.mono (hsink : w.AtSink now h) (hle : now ≤ now') : w.AtSink now' h :=
  ⟨hsink.1, hsink.2.imp_right fun ⟨due, started, wall, hwait, hdue⟩ =>
    ⟨due, started, wall, hwait, Nat.le_trans hdue hle⟩⟩

theorem Quits.mono (hquits : w.Quits now halt) (hle : now ≤ now') : w.Quits now' halt := by
  cases hquits with
  | rests hwait => exact .rests hwait
  | leaves hwait hdue => exact .leaves hwait (Nat.le_trans hdue hle)
  | gone hwait hstate hself => exact .gone hwait hstate hself

theorem Blames.append {error : CoordinationError} (hblames : w.Blames h now es error)
    (hle : now ≤ now') (es' : List Entry) : w.Blames h now' (es' ++ es) error := by
  cases hblames with
  | refused hended => exact .refused (List.mem_append_right _ hended)
  | late hlimit hlate => exact .late hlimit (Nat.le_trans hlate hle)
  | undeleted hgranted => exact .undeleted (hgranted.append es')

section Tame

variable (htame : ∀ e ∈ es', e.Tame)
include htame

/-- What is entered by the way takes nothing away. -/
theorem not_removal_append (hes : ∀ e ∈ es, e.isRemoval = false) :
    ∀ e ∈ es' ++ es, e.isRemoval = false :=
  fun e he => (List.mem_append.mp he).elim (fun he => (htame e he).removal) (hes e)

theorem not_deletion_append (hes : ∀ e ∈ es, e.isDeletion = false) :
    ∀ e ∈ es' ++ es, e.isDeletion = false :=
  fun e he => (List.mem_append.mp he).elim
    (fun he => Entry.isDeletion_of_isRemoval (htame e he).removal) (hes e)

theorem Settled.append {stats : Stats} (hsettled : w.Settled now es stats halt)
    (hle : now ≤ now') : w.Settled now' (es' ++ es) stats halt := by
  cases hsettled with
  | idle hnone hes => exact .idle hnone (not_removal_append htame hes)
  | done hhand hgranted hdeleted =>
      exact .done hhand (hgranted.append es') (List.mem_append_right _ hdeleted)
  | failed hhand hblames hes =>
      exact .failed hhand (hblames.append hle es') (not_deletion_append htame hes)
  | lost hhand hes => exact .lost hhand (not_removal_append htame hes)

/-- Nothing becomes of a worker while others act. -/
theorem Winds.append (hwinds : w.Winds now es w') (hle : now ≤ now') :
    w.Winds now' (es' ++ es) w' := by
  cases hwinds with
  | flies hhand hsink hstats hes =>
      exact .flies hhand (hsink.mono hle) hstats (not_removal_append htame hes)
  | deletes hhand hwait hdue hstats hgranted hes =>
      exact .deletes hhand hwait (Nat.le_trans hdue hle) hstats (hgranted.append es')
        (not_deletion_append htame hes)
  | confirms hhand hwait hdue hstats hgranted hdeleted =>
      exact .confirms hhand hwait (Nat.le_trans hdue hle) hstats (hgranted.append es')
        (List.mem_append_right _ hdeleted)
  | quits hquits hsettled => exact .quits (hquits.mono hle) (hsettled.append htame hle)
  | breaks hhand hongoing hwait hes =>
      exact .breaks hhand hongoing hwait (not_removal_append htame hes)

end Tame

end Worker

namespace Scene

/-- What becomes of a batch in a turn while the sink has it. In the turn `es` is entered. -/
inductive Flies (s s' : Scene) (h : Handover) (es : List Entry) : Prop where
  /-- The sink is not done. The lease may be renewed, and the next renewal comes on schedule. -/
  | goesOn : s'.worker.AtSink s.now h → s'.worker.stats = s.worker.stats →
      (s'.worker.nextPulse = s.worker.nextPulse ∨ .renewed s.stamp ∈ es ∧
        s'.worker.nextPulse = s.now + s.worker.settings.pulseInterval) →
      (∀ e ∈ es, e.isRemoval = false) → Flies s s' h es
  /-- The sink accepts the batch while the agent may process, so its events are deleted. -/
  | accepted {due : Nat} : h.ongoing = some (due, .accepted) → due ≤ s.now →
      s.canProcess = true → s'.worker.wait = .deleting s.now h →
      s'.worker.stats = s.worker.stats →
      es = [.deleting s.stamp s.worker.link.snapshot h.batch, .ended s.stamp h.batch .accepted] →
      Flies s s' h es
  /-- The sink refuses the batch, or the time allowed is over. -/
  | failed {error : CoordinationError} : s.worker.Blames h s.now es error →
      s'.worker.Quits s.now (s.worker.verdict h error) →
      s'.worker.stats =
        { s.worker.stats with failedAttempts := s.worker.stats.failedAttempts + 1 } →
      (∀ e ∈ es, e.isRemoval = false) → Flies s s' h es
  /-- The agent may not process any more, even if the sink accepts the batch. -/
  | lost : s'.canProcess = false → s'.worker.Quits s.now none →
      s'.worker.stats =
        { s.worker.stats with discardedBatches := s.worker.stats.discardedBatches + 1 } →
      (∀ e ∈ es, e.isRemoval = false) → Flies s s' h es
  /-- The sink breaks down. -/
  | breaks {due : Nat} : h.ongoing = some (due, .broken) → due ≤ s.now →
      s'.worker.wait = .over .broken → (∀ e ∈ es, e.isRemoval = false) → Flies s s' h es

/-- From `s` to `s'` the worker has taken up nothing and quits, and has not left yet. -/
structure Ceases (s s' : Scene) (stats : Stats) (halt : Option Halt) : Prop where
  adds : Journal.Adds Entry.Tame s.journal s'.journal
  quits : s'.worker.Quits s.now halt
  stats_eq : s'.worker.stats = stats
  outbox_eq : s'.outbox = s.outbox
  selfId_eq : s'.worker.link.selfId = s.worker.link.selfId

variable {s s₁ s' : Scene} {h : Handover} {stats : Stats} {halt : Option Halt}

theorem Ceases.after (hceases : Ceases s₁ s' stats halt)
    (hadds : Journal.Adds Entry.Tame s.journal s₁.journal) (hnow : s₁.now = s.now)
    (houtbox : s₁.outbox = s.outbox) (hself : s₁.worker.link.selfId = s.worker.link.selfId) :
    Ceases s s' stats halt where
  adds := hadds.trans hceases.adds
  quits := hnow ▸ hceases.quits
  stats_eq := hceases.stats_eq
  outbox_eq := hceases.outbox_eq.trans houtbox
  selfId_eq := hceases.selfId_eq.trans hself

theorem ceases_finish (halt : Option Halt) (hself : s.worker.link.selfId = none) :
    Ceases s (s.finish halt) s.worker.stats halt := by
  cases halt with
  | none => exact ⟨(Journal.Adds.refl _ _).cons ⟨rfl, rfl⟩, .gone rfl rfl hself, rfl, rfl, rfl⟩
  | some halt => exact ⟨.refl _ _, .gone rfl rfl hself, rfl, rfl, rfl⟩

theorem ceases_depart (hswift : s.after .begin = s.now) (halt : Option Halt) :
    Ceases s (s.depart halt) s.worker.stats halt := by
  unfold depart
  split
  · exact ceases_finish halt (Option.isNone_iff_eq_none.mp ‹_›)
  · exact ⟨.refl _ _, .leaves rfl (Nat.le_of_eq hswift), rfl, rfl, rfl⟩

theorem ceases_endIdle (s : Scene) (wait : Nat) :
    Ceases s (s.endIdle wait) s.worker.stats none :=
  ⟨(Journal.Adds.refl _ _).cons (e := .cycleEnded s.stamp wait) ⟨rfl, rfl⟩, .rests rfl, rfl, rfl,
    rfl⟩

theorem ceases_loseOwnership (s : Scene) (h : Handover) : Ceases s (s.loseOwnership h)
    { s.worker.stats with discardedBatches := s.worker.stats.discardedBatches + 1 } none := by
  unfold loseOwnership
  refine (ceases_endIdle _ _).after ?_ rfl rfl rfl
  exact (Journal.Adds.refl _ _).cons (e := .notice (.ownershipLost h.batch.events.length))
    ⟨rfl, rfl⟩

/-- A batch that has failed is kept, or the worker gives up. -/
theorem ceases_failBatch (hswift : s.after .begin = s.now) (h : Handover)
    (error : CoordinationError) : Ceases s (s.failBatch h error)
      { s.worker.stats with failedAttempts := s.worker.stats.failedAttempts + 1 }
      (s.worker.verdict h error) := by
  have hnoted : ∀ n, Journal.Adds Entry.Tame s.journal (.notice n :: s.journal) :=
    fun n => (Journal.Adds.refl _ _).cons ⟨rfl, rfl⟩
  unfold failBatch
  dsimp only
  -- The verdict turns on what `failBatch` itself asks, so the two agree in either case.
  by_cases hlast : s.worker.settings.retryPolicy.isExhausted h.batch.failed.attempts = true
  · have hverdict : s.worker.verdict h error = some ⟨h.batch.failed.attempts, error.message⟩ :=
      if_pos hlast
    rw [if_pos hlast, hverdict]
    exact (ceases_depart (by exact hswift) _).after (hnoted _) rfl rfl rfl
  · have hverdict : s.worker.verdict h error = none := if_neg hlast
    rw [if_neg hlast, hverdict]
    exact ⟨(hnoted _).cons ⟨rfl, rfl⟩, .rests rfl, rfl, rfl, rfl⟩

/-- No batch follows another one when the worker should stop. -/
theorem ceases_completeBatch (hraised : s.signal.raised = true) (count : Nat) :
    Ceases s (s.completeBatch h count) { s.worker.stats with
      batchesApplied := s.worker.stats.batchesApplied + 1
      eventsConsumed := s.worker.stats.eventsConsumed + h.batch.events.length } none := by
  unfold completeBatch
  dsimp only
  -- Whether fewer events were deleted is reported and makes no difference.
  generalize hreport : (if count < h.batch.events.length then _ else _ : Scene) = s₁
  have hafter : Journal.Adds Entry.Tame s.journal s₁.journal ∧ s₁.now = s.now ∧
      s₁.outbox = s.outbox ∧ s₁.worker.link = s.worker.link ∧ s₁.signal = s.signal ∧
      s₁.worker.stats = { s.worker.stats with
        batchesApplied := s.worker.stats.batchesApplied + 1
        eventsConsumed := s.worker.stats.eventsConsumed + h.batch.events.length } := by
    rw [← hreport]
    split
    · exact ⟨(Journal.Adds.refl _ _).cons ⟨rfl, rfl⟩, rfl, rfl, rfl, rfl, rfl⟩
    · exact ⟨.refl _ _, rfl, rfl, rfl, rfl, rfl⟩
  rcases hafter with ⟨hadds, hnow, houtbox, hlink, hsignal, hstats⟩
  have hself := congrArg Link.selfId hlink
  rw [← hstats]
  split
  · exact (ceases_endIdle s₁ _).after hadds hnow houtbox hself
  · -- After a full batch the request is one of the reasons not to go on with the next one.
    rw [if_pos (Or.inr (Or.inr (Or.inr (by rw [hsignal]; exact hraised))))]
    exact (ceases_endIdle s₁ _).after hadds hnow houtbox hself

/-- Who rests leaves as soon as it wakes up. -/
theorem ceases_wake (hraised : s.signal.raised = true) (hswift : s.after .begin = s.now)
    (due : Nat) : Ceases s (s.wake due) s.worker.stats none := by
  -- Whatever has woken it, the worker finds the request at the head of its loop.
  have hloop : ∀ s₁ : Scene, s₁.signal.raised = true → s₁.loop = s₁.depart none :=
    fun _ hraised => if_pos hraised
  rcases s.wake_cases due with heq | heq | heq <;> rw [heq]
  · rw [hloop s hraised]
    exact ceases_depart hswift none
  · rw [hloop { s with worker.seen := s.signal.version } hraised]
    exact (ceases_depart (s := { s with worker.seen := s.signal.version }) hswift none).after
      (.refl _ _) rfl rfl rfl
  · exact ceases_depart hswift none

/-- A renewal leaves an agent its record, or what it takes for it. -/
theorem selfId_renew (l : Link) (moment : Moment) (access : Access) (t : AgentTable) :
    (l.renew moment access t).link.selfId = l.selfId := by
  rcases (l.renew_cases moment access t).2 with ⟨_, _, hlink⟩ | ⟨_, _, hlink⟩ |
    ⟨_, _, hlink | hlink⟩ <;> rw [hlink]
  rfl

/-- An agent that has left has no record any more. -/
theorem selfId_leave (l : Link) (access : Access) (t : AgentTable) :
    (l.leave access t).link.selfId = none := by
  rcases (l.leave_cases access t).2 with ⟨hself, _, hlink⟩ | ⟨id, _, _, hlink⟩ <;> rw [hlink]
  exact hself

section Resumed

variable {due count : Nat}

theorem resume_deleting (hwait : s.worker.wait = .deleting due h) :
    s.resume = s.delete h due := by
  rw [resume, hwait]

theorem resume_deleted (hwait : s.worker.wait = .deleted due count h) (hdue : due ≤ s.now) :
    s.resume = s.completeBatch h count := by
  rw [resume, hwait]
  exact if_pos hdue

theorem resume_resting (hwait : s.worker.wait = .resting due) : s.resume = s.wake due := by
  rw [resume, hwait]

theorem resume_leaving (hwait : s.worker.wait = .leaving due halt) : s.resume = s.leave halt := by
  rw [resume, hwait]

theorem resume_over {how : End} (hwait : s.worker.wait = .over how) : s.resume = s := by
  rw [resume, hwait]

end Resumed

/-- A turn of a worker that quits. It keeps its record until it leaves, and then it has come to its
    end. -/
theorem quits_resume (hraised : s.signal.raised = true) (hswift : s.after .begin = s.now)
    (hquits : s.worker.Quits s.now halt) :
    Journal.Adds Entry.Tame s.journal s.resume.journal ∧ s.resume.worker.Quits s.now halt ∧
      s.resume.worker.stats = s.worker.stats ∧
      (s.resume.worker.link.selfId = s.worker.link.selfId ∨
        s.resume.worker.wait = .over .finished) := by
  cases hquits with
  | @rests wake hwait =>
      rw [resume_resting hwait]
      have hceases := ceases_wake hraised hswift wake
      exact ⟨hceases.adds, hceases.quits, hceases.stats_eq, Or.inl hceases.selfId_eq⟩
  | leaves hwait _ =>
      rw [resume_leaving hwait]
      -- The session clears what the worker knows of its record even if the table refuses it.
      have hceases := ceases_finish (s := s.attempt fun l => l.leave) halt (selfId_leave _ _ _)
      refine ⟨Journal.Adds.trans ?_ hceases.adds, hceases.quits, hceases.stats_eq, Or.inr ?_⟩
      · exact (Journal.Adds.refl _ _).addNotices (fun _ => ⟨rfl, rfl⟩) _
      · cases halt <;> rfl
  | gone hwait hstate hself =>
      rw [resume_over hwait]
      exact ⟨.refl _ _, .gone hwait hstate hself, rfl, Or.inl rfl⟩

/-- A turn while the sink has the batch: nothing is taken up, the outbox is left alone, and the
    agent keeps its record. -/
def Flight (s s' : Scene) (h : Handover) : Prop :=
  s'.outbox = s.outbox ∧ s'.worker.link.selfId = s.worker.link.selfId ∧
    ∃ es, s'.journal = es ++ s.journal ∧ (∀ e ∈ es, e.isStart = false) ∧ Flies s s' h es

/-- The attempt is over, after something else was entered in the turn. -/
theorem Ceases.flight (hceases : Ceases s₁ s' stats halt) (es : List Entry)
    (hes : s₁.journal = es ++ s.journal) (htame : ∀ e ∈ es, e.Tame) (hnow : s₁.now = s.now)
    (houtbox : s₁.outbox = s.outbox) (hself : s₁.worker.link.selfId = s.worker.link.selfId)
    (hflies : ∀ es', s'.worker.Quits s.now halt → (∀ e ∈ es' ++ es, e.isRemoval = false) →
      Flies s s' h (es' ++ es)) : Flight s s' h := by
  rcases hceases.adds with ⟨es', hes', htame'⟩
  have hall : ∀ e ∈ es' ++ es, e.Tame :=
    fun e he => (List.mem_append.mp he).elim (htame' e) (htame e)
  refine ⟨hceases.outbox_eq.trans houtbox, hceases.selfId_eq.trans hself, es' ++ es, ?_,
    fun e he => (hall e he).start,
    hflies es' (hnow ▸ hceases.quits) fun e he => (hall e he).removal⟩
  rw [hes', hes, List.append_assoc]

section Turn

variable (hswift : ∀ point, s.after point = s.now)
include hswift

/-- The sink is done with the batch. -/
theorem flight_sinkDone {due : Nat} {ending : Ending} (hongoing : h.ongoing = some (due, ending))
    (hdue : due ≤ s.now) : Flight s (s.sinkDone h ending) h := by
  have hended : ∀ e ∈ [Entry.ended s.stamp h.batch ending], e.Tame := by
    intro e he
    rw [List.mem_singleton.mp he]
    exact ⟨rfl, rfl⟩
  unfold sinkDone
  cases ending with
  | broken =>
      exact ⟨rfl, rfl, _, rfl, fun e he => (hended e he).start,
        .breaks hongoing hdue rfl fun e he => (hended e he).removal⟩
  | refused message =>
      have hceases := ceases_failBatch (s := s.enter (.ended s.stamp h.batch (.refused message)))
        (hswift .begin) h (.sink ⟨message, []⟩)
      have hblames : ∀ es', s.worker.Blames h s.now
          (es' ++ [.ended s.stamp h.batch (.refused message)]) (.sink ⟨message, []⟩) :=
        fun es' => .refused (List.mem_append_right es' List.mem_cons_self)
      exact hceases.flight _ rfl hended rfl rfl rfl fun es' hquits =>
        .failed (hblames es') hquits hceases.stats_eq
  | accepted =>
      dsimp only
      -- That the sink has accepted is not enough. The agent has to be allowed to process still.
      by_cases hcan : s.canProcess = true
      · rw [if_pos (by exact hcan)]
        refine ⟨rfl, rfl, [.deleting s.stamp s.worker.link.snapshot h.batch,
          .ended s.stamp h.batch .accepted], rfl, ?_, .accepted hongoing hdue hcan ?_ rfl rfl⟩
        · simp [Entry.isStart]
        · exact congrArg (Wait.deleting · h) (hswift .deleteEvents)
      · rw [if_neg (by exact hcan)]
        have hceases := ceases_loseOwnership (s.enter (.ended s.stamp h.batch .accepted)) h
        exact hceases.flight _ rfl hended rfl rfl rfl fun es' hquits =>
          .lost (Bool.eq_false_iff.mpr hcan) hquits hceases.stats_eq

/-- Whatever is taken up while the sink has the batch. -/
theorem flight_race (hongoing : h.ongoing.isSome) (branches : List Branch) :
    Flight s (s.race h branches) h := by
  have hnone : ∀ {P : Entry → Prop}, ∀ e ∈ ([] : List Entry), P e :=
    fun _ he => absurd he List.not_mem_nil
  rcases race_cases s h branches with ⟨s₁, h₁, hasked, hraced⟩
  cases hasked with
  | now hnone =>
      -- The sink has the batch, so it is not given it in this turn.
      rw [hnone] at hongoing
      cases hongoing
  | before =>
      generalize s.race h branches = s' at hraced ⊢
      cases hraced with
      | nothing =>
          exact ⟨rfl, rfl, [], rfl, hnone, .goesOn ⟨hongoing, Or.inl rfl⟩ rfl (Or.inl rfl) hnone⟩
      | sink hending hdue => exact flight_sinkDone hswift hending hdue
      | renewal _ =>
          refine ⟨rfl, rfl, [], rfl, hnone,
            .goesOn ⟨hongoing, Or.inr ⟨_, _, _, rfl, ?_⟩⟩ rfl (Or.inl rfl) hnone⟩
          split
          · exact Nat.le_refl _
          · exact Nat.le_of_eq (hswift .begin)
      | deadline hcan =>
          have hceases := ceases_loseOwnership s h
          exact hceases.flight [] rfl hnone rfl rfl rfl fun es' hquits =>
            .lost hcan hquits hceases.stats_eq
      | timeout hlimit hlate =>
          have hceases := ceases_failBatch (hswift .begin) h
            (.transactionTimeout (s.worker.settings.transactionTimeout.getD 0 * 1000000))
          exact hceases.flight [] rfl hnone rfl rfl rfl fun es' hquits =>
            .failed (.late hlimit hlate) hquits hceases.stats_eq

omit hswift in
/-- A renewal, and the batch stays with the sink as long as the agent may process. -/
theorem flight_renew (hongoing : h.ongoing.isSome) (started : Nat) (wall : Int) :
    Flight s (s.renew started wall h) h := by
  -- The renewal is over when it is asked whether the sink may keep the batch.
  obtain ⟨s₁, hrenew, hnow, houtbox, hself, hstats, hpulse, es, hes, htame, hrenewed⟩ :
      ∃ s₁ : Scene, s.renew started wall h = s₁.keepApplying h ∧ s₁.now = s.now ∧
        s₁.outbox = s.outbox ∧ s₁.worker.link.selfId = s.worker.link.selfId ∧
        s₁.worker.stats = s.worker.stats ∧
        s₁.worker.nextPulse = s.now + s.worker.settings.pulseInterval ∧
        ∃ es, s₁.journal = es ++ s.journal ∧ (∀ e ∈ es, e.Tame) ∧ .renewed s.stamp ∈ es := by
    have hnotices := (Journal.Adds.refl Entry.Tame (.renewed s.stamp :: s.journal)).addNotices
      (fun _ => ⟨rfl, rfl⟩)
      (s.worker.link.renew ⟨started, wall, s.now⟩ s.host.access s.agents).notices
    rcases hnotices with ⟨es, hes, htame⟩
    refine ⟨_, rfl, rfl, rfl, selfId_renew _ _ _ _, rfl, rfl, es ++ [.renewed s.stamp], ?_,
      fun e he => ?_,
      List.mem_append_right _ List.mem_cons_self⟩
    · rw [List.append_assoc]
      exact hes
    · rcases List.mem_append.mp he with he | hthis
      · exact htame e he
      · rw [List.mem_singleton.mp hthis]
        exact ⟨rfl, rfl⟩
  rw [hrenew]
  unfold keepApplying
  split
  · exact ⟨houtbox, hself, es, hes, fun e he => (htame e he).start,
      .goesOn ⟨hongoing, Or.inl rfl⟩ hstats (Or.inr ⟨hrenewed, hpulse⟩) fun e he =>
        (htame e he).removal⟩
  · rename_i hcan
    have hceases := ceases_loseOwnership s₁ h
    rw [hstats] at hceases
    exact hceases.flight es hes htame hnow houtbox hself fun es' hquits =>
      .lost (Bool.eq_false_iff.mpr hcan) hquits hceases.stats_eq

/-- A turn of a worker whose sink has a batch. -/
theorem flight_resume (hsink : s.worker.AtSink s.now h) : Flight s s.resume h := by
  unfold resume
  rcases hsink.2 with hwait | ⟨due, started, wall, hwait, _⟩ <;> rw [hwait]
  · exact flight_race hswift hsink.1 _
  · exact flight_renew hsink.1 started wall

/-- The events are deleted, unless the outbox refuses to. -/
theorem delete_outcome {due : Nat} (hdue : due ≤ s.now) :
    (s.host.access.fails .deleteEvents = false ∧
      (s.delete h due).outbox = s.outbox.delete h.batch.ids ∧
      (s.delete h due).journal =
        .deleted s.stamp h.batch.ids (s.outbox.count h.batch.ids) :: s.journal ∧
      (s.delete h due).worker =
        { s.worker with wait := .deleted s.now (s.outbox.count h.batch.ids) h }) ∨
    (s.host.access.fails .deleteEvents = true ∧ ∃ error, Ceases s (s.delete h due)
      { s.worker.stats with failedAttempts := s.worker.stats.failedAttempts + 1 }
      (s.worker.verdict h (.store error))) := by
  have hfails : s.host.access.fails .deleteEvents =
      (s.host.access.faults.strike .deleteEvents).1.isSome := Bool.or_false _
  rw [hfails]
  unfold delete
  rw [if_pos hdue]
  dsimp only [strike]
  cases hstrike : (s.host.access.faults.strike .deleteEvents).1 with
  | none =>
      rw [Faults.strike_of_isNone hstrike]
      refine Or.inl ⟨rfl, rfl, rfl, ?_⟩
      exact congrArg (fun due => ({ s.worker with
        wait := .deleted due (s.outbox.count h.batch.ids) h } : Worker)) (hswift .afterDeleteEvents)
  | some error =>
      refine Or.inr ⟨rfl, error, (ceases_failBatch ?_ h _).after (.refl _ _) rfl rfl rfl⟩
      -- The plan may have changed, but not how long its uses take.
      have hdelays : (s.host.access.faults.strike .deleteEvents).2.delays =
          s.host.access.faults.delays := by
        unfold Faults.strike
        split <;> rfl
      have hsame : (s.host.access.faults.strike .deleteEvents).2.delay .begin =
          s.host.access.faults.delay .begin := by
        rw [Faults.delay, Faults.delay, hdelays]
      exact (congrArg (s.now + ·) hsame).trans (hswift .begin)

variable {w : Worker} {es : List Entry} (hraised : s.signal.raised = true)
  (hsettings : s.worker.settings = w.settings)
include hsettings

omit hswift in
/-- What is known of a turn at the sink is known of the time since the request. -/
theorem Flies.winds {new : List Entry} (hflies : Flies s s' h new) (hhand : w.handover? = some h)
    (hstats : s.worker.stats = w.stats) (hes : ∀ e ∈ es, e.isRemoval = false) :
    w.Winds s.now (new ++ es) s'.worker := by
  have hall : (∀ e ∈ new, e.isRemoval = false) → ∀ e ∈ new ++ es, e.isRemoval = false :=
    fun hnew e he => (List.mem_append.mp he).elim (hnew e) (hes e)
  cases hflies with
  | goesOn hsink hsame _ hnew => exact .flies hhand hsink (hsame.trans hstats) (hall hnew)
  | accepted _ _ hcan hwait hsame hnew =>
      subst hnew
      refine .deletes hhand hwait (Nat.le_refl _) (hsame.trans hstats) ⟨s.stamp, _, ?_, ?_, hcan⟩
        fun e he => ?_
      · exact List.mem_append_left _ (List.mem_cons_of_mem _ List.mem_cons_self)
      · exact List.mem_append_left _ List.mem_cons_self
      · rcases List.mem_append.mp he with he | he
        · rcases List.mem_cons.mp he with rfl | he
          · rfl
          · rw [List.mem_singleton.mp he]
            rfl
        · exact Entry.isDeletion_of_isRemoval (hes e he)
  | @failed error hblames hquits hcounted hnew =>
      have hblames' : w.Blames h s.now (new ++ es) error := by
        cases hblames with
        | refused hended => exact .refused (List.mem_append_left _ hended)
        | late hlimit hlate =>
            rw [hsettings]
            exact .late hlimit hlate
        | undeleted hgranted =>
            -- No deletion was asked for in this turn, so none can have failed.
            rcases hgranted with ⟨_, _, _, hdeleting, _⟩
            cases hnew _ hdeleting
      rw [Worker.verdict_congr hsettings] at hquits
      refine .quits hquits ?_
      rw [hcounted, hstats]
      exact .failed hhand hblames' fun e he => Entry.isDeletion_of_isRemoval (hall hnew e he)
  | lost _ hquits hcounted hnew =>
      refine .quits hquits ?_
      rw [hcounted, hstats]
      exact .lost hhand (hall hnew)
  | breaks hongoing _ hwait hnew => exact .breaks hhand hongoing hwait (hall hnew)

include hraised

/-- A turn of a worker that was asked to stop. -/
theorem winds_resume (hwinds : w.Winds s.now es s.worker) :
    (s.resume.worker.link.selfId = s.worker.link.selfId ∨
      s.resume.worker.wait = .over .finished) ∧
    ∃ new, s.resume.journal = new ++ s.journal ∧ (∀ e ∈ new, e.isStart = false) ∧
      w.Winds s.now (new ++ es) s.resume.worker := by
  -- By how far the worker has come: from each stage a turn leads to itself or to a later one.
  cases hwinds with
  | flies hhand hsink hstats hes =>
      rcases flight_resume hswift hsink with ⟨_, hself, new, hnew, hstarts, hflies⟩
      exact ⟨Or.inl hself, new, hnew, hstarts, hflies.winds hsettings hhand hstats hes⟩
  | @deletes h due hhand hwait hdue hstats hgranted hes =>
      rw [resume_deleting hwait]
      rcases delete_outcome (h := h) hswift hdue with
        ⟨_, _, hjournal, hworker⟩ | ⟨_, error, hceases⟩
      · refine ⟨Or.inl ?_, [_], hjournal, fun e he => List.mem_singleton.mp he ▸ rfl, ?_⟩
        · rw [hworker]
        · rw [hworker]
          exact .confirms hhand rfl (Nat.le_refl _) hstats (hgranted.append _) List.mem_cons_self
      · -- The deletion has failed, and with it the attempt. What it is judged by are the settings,
        -- which are those from when the request was made.
        rcases hceases.adds with ⟨new, hnew, htame⟩
        have hquits := hceases.quits
        rw [Worker.verdict_congr hsettings] at hquits
        refine ⟨Or.inl hceases.selfId_eq, new, hnew, fun e he => (htame e he).start,
          .quits hquits ?_⟩
        rw [hceases.stats_eq, hstats]
        exact .failed hhand (.undeleted (hgranted.append new))
          (Worker.not_deletion_append htame hes)
  | @confirms h due count who hhand hwait hdue hstats hgranted hdeleted =>
      rw [resume_deleted hwait hdue]
      have hceases := ceases_completeBatch (h := h) hraised count
      rcases hceases.adds with ⟨new, hnew, htame⟩
      refine ⟨Or.inl hceases.selfId_eq, new, hnew, fun e he => (htame e he).start,
        .quits hceases.quits ?_⟩
      rw [hceases.stats_eq, hstats]
      exact .done hhand (hgranted.append new) (List.mem_append_right _ hdeleted)
  | quits hquits hsettled =>
      rcases quits_resume hraised (hswift .begin) hquits with
        ⟨⟨new, hnew, htame⟩, hquits', hstats, hself⟩
      refine ⟨hself, new, hnew, fun e he => (htame e he).start, .quits hquits' ?_⟩
      rw [hstats]
      exact hsettled.append htame (Nat.le_refl _)
  | breaks hhand hongoing hwait hes =>
      rw [resume_over hwait]
      exact ⟨Or.inl rfl, [], rfl, fun _ he => absurd he List.not_mem_nil,
        .breaks hhand hongoing hwait hes⟩

end Turn

/-- The same scene with another request to stop. -/
def withSignal (s : Scene) (σ : Signal) : Scene := { s with signal := σ }

section Heedless

variable (σ : Signal)

theorem depart_withSignal (s : Scene) (halt : Option Halt) :
    (s.withSignal σ).depart halt = (s.depart halt).withSignal σ := by
  unfold depart
  by_cases hself : s.worker.link.selfId.isNone = true
  · rw [if_pos hself, if_pos (by exact hself)]
    cases halt <;> rfl
  · rw [if_neg hself, if_neg (by exact hself)]
    rfl

theorem failBatch_withSignal (s : Scene) (h : Handover) (error : CoordinationError) :
    (s.withSignal σ).failBatch h error = (s.failBatch h error).withSignal σ := by
  unfold failBatch
  dsimp only
  by_cases hlast : s.worker.settings.retryPolicy.isExhausted h.batch.failed.attempts = true
  · rw [if_pos hlast, if_pos (by exact hlast), ← depart_withSignal]
    rfl
  · rw [if_neg hlast, if_neg (by exact hlast)]
    rfl

theorem sinkDone_withSignal (s : Scene) (h : Handover) (ending : Ending) :
    (s.withSignal σ).sinkDone h ending = (s.sinkDone h ending).withSignal σ := by
  unfold sinkDone
  cases ending with
  | broken => rfl
  | refused message =>
      exact failBatch_withSignal σ (s.enter (.ended s.stamp h.batch (.refused message))) h
        (.sink ⟨message, []⟩)
  | accepted =>
      dsimp only
      by_cases hcan : s.canProcess = true
      · rw [if_pos (by exact hcan), if_pos (by exact hcan)]
        rfl
      · rw [if_neg (by exact hcan), if_neg (by exact hcan)]
        rfl

theorem race_withSignal (s : Scene) (h : Handover) (branches : List Branch) :
    (s.withSignal σ).race h branches = (s.race h branches).withSignal σ := by
  -- Each branch asks the same in both scenes, since none of them looks at the request.
  induction branches generalizing s h with
  | nil => rfl
  | cons branch rest ih =>
      cases branch with
      | sink =>
          unfold race
          cases h.ongoing with
          | none =>
              dsimp only
              by_cases hdue : (s.askSink h).2.1 ≤ (s.askSink h).1.now
              · rw [if_pos hdue, if_pos (by exact hdue), ← sinkDone_withSignal]
                rfl
              · rw [if_neg hdue, if_neg (by exact hdue), ← ih]
                rfl
          | some ongoing =>
              dsimp only
              by_cases hdue : ongoing.1 ≤ s.now
              · rw [if_pos hdue, if_pos (by exact hdue), sinkDone_withSignal]
              · rw [if_neg hdue, if_neg (by exact hdue), ih]
      | renewal =>
          unfold race
          by_cases hdue : s.worker.nextPulse ≤ s.now
          · rw [if_pos hdue, if_pos (by exact hdue)]
            rfl
          · rw [if_neg hdue, if_neg (by exact hdue), ih]
      | deadline =>
          unfold race
          by_cases hlapsed : s.worker.link.snapshot.leaseDeadline.any (· ≤ s.now) = true
          · rw [if_pos hlapsed, if_pos (by exact hlapsed)]
            rfl
          · rw [if_neg hlapsed, if_neg (by exact hlapsed), ih]
      | timeout =>
          unfold race
          by_cases hdue : h.timeoutAt.any (· ≤ s.now) = true
          · rw [if_pos hdue, if_pos (by exact hdue)]
            exact failBatch_withSignal σ s h _
          · rw [if_neg hdue, if_neg (by exact hdue), ih]

theorem renew_withSignal (s : Scene) (started : Nat) (wall : Int) (h : Handover) :
    (s.withSignal σ).renew started wall h = (s.renew started wall h).withSignal σ := by
  unfold renew keepApplying
  dsimp only
  split
  · rename_i hcan
    rw [if_pos (by exact hcan)]
    rfl
  · rename_i hcan
    rw [if_neg (by exact hcan)]
    rfl

theorem delete_withSignal (s : Scene) (h : Handover) (due : Nat) :
    (s.withSignal σ).delete h due = (s.delete h due).withSignal σ := by
  unfold delete
  by_cases hdue : due ≤ s.now
  · rw [if_pos hdue, if_pos (by exact hdue)]
    dsimp only [strike, withSignal]
    cases (s.host.access.faults.strike .deleteEvents).1 with
    | none => rfl
    | some error => exact failBatch_withSignal σ (s.strike .deleteEvents).2 h (.store error)
  · rw [if_neg hdue, if_neg (by exact hdue)]
    exact failBatch_withSignal σ s h _

/-- Until its events are deleted, what becomes of a batch does not depend on the request. -/
theorem resume_withSignal (hhand : s.worker.handover? = some h)
    (hnot : ∀ due count h, s.worker.wait ≠ .deleted due count h) :
    (s.withSignal σ).resume = s.resume.withSignal σ ∧
      s.worker.dueAt σ = s.worker.dueAt s.signal := by
  have hsame : (s.withSignal σ).worker.wait = s.worker.wait := rfl
  rw [Worker.handover?] at hhand
  unfold resume Worker.dueAt
  rw [hsame]
  cases hwait : s.worker.wait with
  | applying h' => exact ⟨race_withSignal σ s h' _, rfl⟩
  | renewing due started wall h' => exact ⟨renew_withSignal σ s started wall h', rfl⟩
  | deleting due h' => exact ⟨delete_withSignal σ s h' due, rfl⟩
  | deleted due count h' => exact absurd hwait (hnot due count h')
  -- In the other waits there is nothing in hand.
  | _ =>
      rw [hwait] at hhand
      cases hhand

end Heedless

/-- The record of an agent is gone if no use of its session fails, and the table is as it was
    otherwise. -/
theorem agents_leave {id : Int} (hself : s.worker.link.selfId = some id) (halt : Option Halt) :
    (s.leave halt).agents =
      if Link.leaveUses.any s.host.access.fails then s.agents else s.agents.delete [id] := by
  have hagents : (s.leave halt).agents =
      (s.worker.link.leave s.host.access s.agents).table := by
    unfold leave finish
    cases halt <;> rfl
  rw [hagents]
  have hthrough : (s.worker.link.leaveResult s.host.access s.agents id).isOk = true ↔
      ∀ point ∈ Link.leaveUses, s.host.access.fails point = false := Link.through_leave_iff
  rcases Session.run_of_ends (fun _ => true) s.host.access
    (Link.ends_leaveSession { s.worker.link with selfId := none } id s.agents s.host.access) with
    ⟨_, t, ⟨_, _, htable⟩, hrun⟩ | ⟨e, t, _, hrun⟩
  · -- That the session has come through says of its uses that none has failed.
    rw [Link.leaveResult, hrun] at hthrough
    have hspared : Link.leaveUses.any s.host.access.fails = false :=
      List.any_eq_false.mpr fun point hmem =>
        Bool.eq_false_iff.mp (hthrough.mp rfl point hmem)
    simp only [Link.leave, hself, hrun, hspared, htable, if_true, Bool.false_eq_true, if_false]
  · rw [Link.leaveResult, hrun] at hthrough
    have hfails : Link.leaveUses.any s.host.access.fails = true := by
      by_contra hnot
      refine Bool.false_ne_true (hthrough.mpr fun point hmem => ?_)
      exact Bool.eq_false_iff.mpr
        (List.any_eq_false.mp (Bool.eq_false_iff.mpr hnot) point hmem)
    simp only [Link.leave, hself, hrun, hfails, if_true]

/-- What a turn does with the batch in hand and, in the end, with the record of the agent. -/
structure Disposes (s : Scene) : Prop where
  /-- While the sink has a batch, this becomes of it. -/
  flight : ∀ h, s.worker.AtSink s.now h → Flight s s.resume h
  /-- The events of a batch that was accepted are deleted, unless the outbox refuses to. -/
  deletes : ∀ due h, s.worker.wait = .deleting due h → due ≤ s.now → s.resume.outbox =
    if s.host.access.fails .deleteEvents then s.outbox else s.outbox.delete h.batch.ids
  /-- So far it makes no difference whether the worker should stop. -/
  heedless : ∀ σ h, s.worker.handover? = some h →
    (∀ due count h', s.worker.wait ≠ .deleted due count h') →
    (s.withSignal σ).resume = s.resume.withSignal σ ∧ s.worker.dueAt σ = s.worker.dueAt s.signal
  /-- And it counts as done in any case. -/
  completes : ∀ σ due count h, s.worker.wait = .deleted due count h → due ≤ s.now →
    (s.withSignal σ).resume.outbox = s.outbox ∧ (s.withSignal σ).resume.worker.stats =
      { s.worker.stats with
        batchesApplied := s.worker.stats.batchesApplied + 1
        eventsConsumed := s.worker.stats.eventsConsumed + h.batch.events.length }
  /-- Who leaves removes its record, unless a use of the session fails. -/
  leaves : ∀ due halt id, s.worker.wait = .leaving due halt → s.worker.link.selfId = some id →
    s.resume.agents =
      if Link.leaveUses.any s.host.access.fails then s.agents else s.agents.delete [id]

theorem disposes {bound : Nat} (hsound : s.worker.Sound s.host.name s.journal s.now bound)
    (hswift : ∀ point, s.after point = s.now) : s.Disposes where
  flight := fun _ hsink => flight_resume hswift hsink
  deletes := by
    intro due h hwait hdue
    rw [resume_deleting hwait]
    rcases delete_outcome (h := h) hswift hdue with ⟨hspared, houtbox, _⟩ | ⟨hfails, _, hceases⟩
    · rw [hspared, houtbox]
      rfl
    · rw [hfails, hceases.outbox_eq]
      rfl
  heedless := fun σ _ hhand hnot => resume_withSignal σ hhand hnot
  completes := by
    intro σ due count h hwait hdue
    -- Nothing else is kept, so at most a search follows, which touches no rows.
    have hheld := hsound.waits
    rw [Worker.Waits, hwait] at hheld
    have hlands := lands_completeBatch (s := s.withSignal σ) hheld.alone hheld.agent hheld.shard
      count
    rw [resume_deleted (s := s.withSignal σ) hwait hdue]
    exact ⟨hlands.outbox_eq, completeBatch_worker (s := s.withSignal σ) hheld.alone count⟩
  leaves := by
    intro due halt id hwait hself
    rw [resume_leaving hwait]
    exact agents_leave hself halt

end Scene

end OutboxCluster
