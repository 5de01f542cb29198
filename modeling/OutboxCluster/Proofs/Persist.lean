import OutboxCluster.Proofs.Conduct
import OutboxCluster.Proofs.Settings

/-!
# Trying Again

A batch that has failed is kept, and handed on again when the next cycle is due. On the way
it passes through many hands: it is taken out of the worker and put back, waits through
pulses and renewals, and goes to the sink, to the outbox and back again. On all these paths
the worker looks for nothing else, the events stay the same, and of the batch only the number
of its failures changes. `Worker.Pursues` says where the batch may be in between, and
`resume_tries` that a turn leads from there to there.

An attempt ends in one of three ways. It fails because the sink refuses the batch, because
the time allowed is over, or because the events cannot be deleted, and each of them counts as
one failure. It succeeds when the worker hears that the events were deleted. Or the agent may
not process any more before that, which is no failure, and nothing is tried again.

As long as none of these has happened the attempt goes on (`Worker.Continues`). The batch then
stays in hand, so that it does not wait for its retry without having failed, and the time
allowed is counted from where the attempt began. When it is over, the sink does not keep the
batch.

The time allowed can be over after the events were deleted and before the worker hears of it.
Then the attempt has failed although the events are gone.

## Main definitions

* `Batch.afterFailures`: The batch, failed so often.
* `Entry.Repeats`, `Entry.Mild`: What may be entered while a batch is tried.
* `Journal.Adds`, `Journal.since`: What was entered.
* `Worker.Hands`, `Worker.Keeps`, `Worker.GivesUp`, `Worker.Stops`: Where a batch may be.
* `Worker.Pursues`: All of these, with the number of failures.
* `Worker.Alike`, `Scene.Idles`: What a turn leaves alone until a cycle begins.
* `Worker.Fails`: Why an attempt has failed.
* `Worker.MovesOn`, `Worker.Continues`: How an attempt goes on.
* `Worker.Fares`, `Scene.Tries`: What becomes of a batch in a turn.
* `Scene.Owned`: A cycle begins only for the agent and the shard of the batch.

## Theorems

* `failBatch_worker`: A batch that has failed is kept, or the worker gives up.
* `tries_kept`, `tries_hand`, `tries_end`: A turn of a worker, by where the batch is.
* `resume_tries`: Every turn of a worker that pursues a batch.
* `poll_hands`: How a batch comes to be pursued.
-/

namespace OutboxCluster

namespace Batch

/-- The batch as it is after so many failures. -/
def afterFailures (b : Batch) (k : Nat) : Batch := { b with attempts := k }

end Batch

namespace Entry

/-- A sink has refused a batch. -/
def isRefusal : Entry → Bool
  | .ended _ _ (.refused _) => true
  | _ => false

/-- Events were deleted. -/
def isDeletion : Entry → Bool
  | .deleted .. => true
  | _ => false

/-- What may be entered while a batch is tried that has failed `k` times so far: the outbox is
    not searched, and nothing else is handed on or deleted. -/
def Repeats (b : Batch) (k : Nat) : Entry → Prop
  | .searched .. => False
  | .began _ _ batch | .ended _ batch _ | .deleting _ _ batch => ∃ j ≤ k, batch = b.afterFailures j
  | .deleted _ ids _ => ids = b.ids
  | _ => True

theorem Repeats.mono {b : Batch} {k k' : Nat} {e : Entry} (h : e.Repeats b k) (hle : k ≤ k') :
    e.Repeats b k' := by
  cases e with
  | began | ended | deleting =>
      rcases h with ⟨j, hj, heq⟩
      exact ⟨j, Nat.le_trans hj hle, heq⟩
  | _ => exact h

/-- An entry of an attempt that neither fails nor succeeds. -/
structure Mild (b : Batch) (k : Nat) (e : Entry) : Prop where
  repeats : e.Repeats b k
  refusal : e.isRefusal = false
  deletion : e.isDeletion = false

theorem mild_of_isMark {b : Batch} {k : Nat} {e : Entry} (h : e.isMark = true) : e.Mild b k := by
  cases e with
  | notice | cycleBegan | cycleEnded => exact ⟨trivial, rfl, rfl⟩
  | _ => exact nomatch h

end Entry

namespace Journal

/-- The journal has grown by entries of which something is known. -/
def Adds (P : Entry → Prop) (j j' : Journal) : Prop := ∃ es, j' = es ++ j ∧ ∀ e ∈ es, P e

namespace Adds

variable {P : Entry → Prop} {j j' j'' : Journal}

theorem refl (P : Entry → Prop) (j : Journal) : Adds P j j :=
  ⟨[], rfl, fun _ h => absurd h List.not_mem_nil⟩

theorem trans (h : Adds P j j') (h' : Adds P j' j'') : Adds P j j'' := by
  rcases h with ⟨es, rfl, hes⟩
  rcases h' with ⟨es', rfl, hes'⟩
  refine ⟨es' ++ es, (List.append_assoc _ _ _).symm, fun e he => ?_⟩
  exact (List.mem_append.mp he).elim (hes' e) (hes e)

theorem cons (h : Adds P j j') {e : Entry} (he : P e) : Adds P j (e :: j') :=
  h.trans ⟨[e], rfl, fun _ hmem => List.mem_singleton.mp hmem ▸ he⟩

theorem addNotices (h : Adds P j j') (hP : ∀ n, P (.notice n)) (ns : List Notice) :
    Adds P j (j'.addNotices ns) := by
  refine h.trans ⟨(ns.map Entry.notice).reverse, rfl, fun e he => ?_⟩
  rcases List.mem_map.mp (List.mem_reverse.mp he) with ⟨n, _, rfl⟩
  exact hP n

/-- Whatever control enters. -/
theorem marks (h : Adds P j j') {who : Stamp} (hmarks : Scene.Marks who j' j'')
    (hP : ∀ e, e.isMark = true → P e) : Adds P j j'' := by
  rcases hmarks with ⟨es, rfl, hes⟩
  exact h.trans ⟨es, rfl, fun e he => hP e (hes e he).1⟩

end Adds

/-- What was entered since the journal was `j`. -/
def since (j' j : Journal) : List Entry := j'.take (j'.length - j.length)

theorem since_append (es : List Entry) (j : Journal) : Journal.since (es ++ j) j = es := by
  rw [since, List.length_append, Nat.add_sub_cancel, List.take_left]

theorem since_trans {j j' j'' : Journal} (h : j <:+ j') (h' : j' <:+ j'') :
    j''.since j = j''.since j' ++ j'.since j := by
  rcases h with ⟨es, rfl⟩
  rcases h' with ⟨es', rfl⟩
  rw [since_append, since_append, ← List.append_assoc, since_append]

end Journal

namespace Worker

/-- The batch that the worker has in hand, with its cycle and the time allowed. -/
def handover? (w : Worker) : Option Handover :=
  match w.wait with
  | .applying h | .renewing _ _ _ h | .deleting _ h | .deleted _ _ h => some h
  | _ => none

theorem carried?_of_handover? {w : Worker} {h : Handover} (hhand : w.handover? = some h) :
    w.carried? = some h.batch := by
  unfold handover? at hhand
  unfold carried?
  cases hwait : w.wait with
  | applying | renewing | deleting | deleted =>
      rw [hwait] at hhand
      rw [← Option.some.inj hhand]
  | _ =>
      rw [hwait] at hhand
      exact nomatch hhand

/-- Of two instants the later one is still to come, so the other one has come. -/
theorem exists_of_earlier {due now first : Nat} {limit : Option Nat}
    (h : earlier (some due) limit = some first) (hle : first ≤ now) (hlate : now < due) :
    ∃ l, limit = some l ∧ l ≤ now := by
  cases limit with
  | none =>
      rw [← Option.some.inj h] at hle
      omega
  | some l =>
      have hmin : min due l = first := Option.some.inj h
      exact ⟨l, rfl, by omega⟩

/-- The worker waits for events to be deleted, or for the word that they were. -/
def isDeleting (w : Worker) : Bool :=
  match w.wait with
  | .deleting .. | .deleted .. => true
  | _ => false

theorem ne_of_not_isDeleting {w : Worker} (h : w.isDeleting = false) :
    (∀ due h, w.wait ≠ .deleting due h) ∧ ∀ due count h, w.wait ≠ .deleted due count h := by
  unfold isDeleting at h
  constructor <;> intros <;> intro hwait <;> rw [hwait] at h <;> exact nomatch h

/-- The worker rests between two cycles, or pulses. -/
def Rests (w : Worker) : Prop :=
  (∃ wake, w.wait = .resting wake) ∨ ∃ due started wall, w.wait = .pulsing due started wall

theorem Rests.idle {w : Worker} (h : w.Rests) : w.carried? = none ∧ w.isDeleting = false := by
  rcases h with ⟨_, hwait⟩ | ⟨_, _, _, hwait⟩ <;> rw [carried?, isDeleting, hwait] <;>
    exact ⟨rfl, rfl⟩

/-- Two workers agree in all that matters for a batch, apart from what they wait for. -/
structure Alike (w w' : Worker) : Prop where
  retained_eq : w'.retained = w.retained
  state_eq : w'.state = w.state
  stats_eq : w'.stats = w.stats
  settings_eq : w'.settings = w.settings
  cycle_eq : w'.nextCycle = w.nextCycle

theorem Alike.refl (w : Worker) : w.Alike w := ⟨rfl, rfl, rfl, rfl, rfl⟩

/-- The worker has given up because of a batch, or is about to. -/
def GivesUp (w : Worker) (halt : Halt) : Prop :=
  (∃ due, w.wait = .leaving due (some halt)) ∨
  w.wait = .over .finished ∧ w.state = .halted halt.attempts halt.reason

/-- The worker has come to any other end, or is about to. -/
def Stops (w : Worker) : Prop :=
  (∃ due, w.wait = .leaving due none) ∨
  (∃ how, w.wait = .over how) ∧ ∀ attempts reason, w.state ≠ .halted attempts reason

/-- The worker has the batch in hand, as it is after so many failures, and no other one. -/
structure Hands (w : Worker) (b : Batch) (k : Nat) : Prop where
  carries : w.carried? = some (b.afterFailures k)
  alone : w.retained = none
  state_eq : w.state = .applying

/-- The worker keeps the batch, as it is after so many failures, and rests. -/
structure Keeps (w : Worker) (b : Batch) (k : Nat) : Prop where
  rests : w.Rests
  keeps : w.retained = some (b.afterFailures k)
  state_eq : w.state = .retryWait k
  failed : 0 < k

/-- What has become of a batch that the worker has found and that has failed `k` times: it is
    in hand or is kept, as long as the failures are not too many, or the worker has given up
    because they are, or it has come to another end. -/
inductive Pursues (w : Worker) (b : Batch) (k : Nat) : Prop where
  | hands : w.Hands b k → w.settings.retryPolicy.isExhausted k = false → Pursues w b k
  | keeps : w.Keeps b k → w.settings.retryPolicy.isExhausted k = false → Pursues w b k
  | givesUp {halt : Halt} : w.GivesUp halt → halt.attempts = k →
      w.settings.retryPolicy = .bounded k → Pursues w b k
  | stops : w.Stops → w.settings.retryPolicy.isExhausted k = false → Pursues w b k

/-- Giving up is an end of its own. -/
theorem GivesUp.alone {w : Worker} {halt : Halt} (h : w.GivesUp halt) :
    w.carried? = none ∧ ¬ w.Rests ∧ ¬ w.Stops := by
  rcases h with ⟨_, hwait⟩ | ⟨hwait, hstate⟩
  · refine ⟨by rw [carried?, hwait], ?_, ?_⟩
    · rintro (⟨_, heq⟩ | ⟨_, _, _, heq⟩) <;> cases hwait.symm.trans heq
    · rintro (⟨_, heq⟩ | ⟨⟨_, heq⟩, _⟩) <;> cases hwait.symm.trans heq
  · refine ⟨by rw [carried?, hwait], ?_, ?_⟩
    · rintro (⟨_, heq⟩ | ⟨_, _, _, heq⟩) <;> cases hwait.symm.trans heq
    · rintro (⟨_, heq⟩ | ⟨_, hnever⟩)
      · cases hwait.symm.trans heq
      · exact hnever _ _ hstate

theorem GivesUp.attempts_eq {w : Worker} {halt halt' : Halt} (h : w.GivesUp halt)
    (h' : w.GivesUp halt') : halt.attempts = halt'.attempts := by
  rcases h with ⟨_, hwait⟩ | ⟨hwait, hstate⟩ <;>
    rcases h' with ⟨_, hwait'⟩ | ⟨hwait', hstate'⟩
  · exact congrArg Halt.attempts (Option.some.inj (Wait.leaving.inj (hwait.symm.trans hwait')).2)
  · exact nomatch hwait.symm.trans hwait'
  · exact nomatch hwait.symm.trans hwait'
  · exact (ProcessorState.halted.inj (hstate.symm.trans hstate')).1

namespace Pursues

variable {w : Worker} {b : Batch} {k : Nat}

/-- Who has given up has done so at the last failure that is allowed. -/
theorem of_givesUp (h : w.Pursues b k) {halt : Halt} (hgives : w.GivesUp halt) :
    halt.attempts = k ∧ w.settings.retryPolicy = .bounded k := by
  rcases hgives.alone with ⟨hcarried, hrests, hstops⟩
  cases h with
  | hands hhands _ => exact nomatch hcarried.symm.trans hhands.carries
  | keeps hkeeps _ => exact absurd hkeeps.rests hrests
  | stops hstopped _ => exact absurd hstopped hstops
  | givesUp hgives' hattempts hpolicy =>
      exact ⟨(hgives.attempts_eq hgives').trans hattempts, hpolicy⟩

/-- At the last failure that is allowed the worker has given up. -/
theorem exists_givesUp (h : w.Pursues b k) (hpolicy : w.settings.retryPolicy = .bounded k) :
    ∃ halt, w.GivesUp halt := by
  have hexhausted : w.settings.retryPolicy.isExhausted k = true := by
    rw [hpolicy]
    exact decide_eq_true (Nat.le_refl k)
  cases h with
  | givesUp hgives _ _ => exact ⟨_, hgives⟩
  | hands _ hmore | keeps _ hmore | stops _ hmore => exact nomatch hmore.symm.trans hexhausted

/-- Who pursues a batch has been started. -/
theorem ne_held (h : w.Pursues b k) : w.wait ≠ .held := by
  intro hheld
  cases h with
  | hands hhands _ =>
      have hcarries := hhands.carries
      rw [carried?, hheld] at hcarries
      cases hcarries
  | keeps hkeeps _ =>
      rcases hkeeps.rests with ⟨_, hwait⟩ | ⟨_, _, _, hwait⟩ <;>
        cases hheld.symm.trans hwait
  | givesUp hgives _ _ =>
      rcases hgives with ⟨_, hwait⟩ | ⟨hwait, _⟩ <;> cases hheld.symm.trans hwait
  | stops hstops _ =>
      rcases hstops with ⟨_, hwait⟩ | ⟨⟨_, hwait⟩, _⟩ <;> cases hheld.symm.trans hwait

end Pursues

/-- Why an attempt to hand on a batch has failed. -/
inductive Fails (w : Worker) (now : Nat) (es : List Entry) : CoordinationError → Prop where
  /-- The sink has refused the batch. -/
  | refused {h : Handover} {who : Stamp} {batch : Batch} {message : String} :
      w.wait = .applying h → .ended who batch (.refused message) ∈ es →
      Fails w now es (.sink ⟨message, []⟩)
  /-- The time allowed is over, and nothing was heard of the deletion, if it was made. -/
  | timedOut {h : Handover} {limit : Nat} : w.handover? = some h → h.timeoutAt = some limit →
      limit ≤ now → (∀ due count h', w.wait = .deleted due count h' → now < due) →
      Fails w now es
        (.transactionTimeout (w.settings.transactionTimeout.getD 0 * 1000000))
  /-- The events could not be deleted. -/
  | undeleted {due : Nat} {h : Handover} {error : StoreError} :
      w.wait = .deleting due h → Fails w now es (.store error)

/-- In a turn from `w` to `w'` the worker goes on without its sink: the sink has accepted the
    batch, a renewal was due, or the sink has broken down. -/
def MovesOn (w : Worker) (now : Nat) (w' : Worker) : Prop :=
  (∃ due h, w'.wait = .deleting due h) ∨
  (∃ due started wall h, w'.wait = .renewing due started wall h) ∧ w.nextPulse ≤ now ∨
  w'.wait = .over .broken

/-- How an attempt begins or goes on, in a turn from `w` to `w'`. -/
structure Continues (w : Worker) (b : Batch) (k now : Nat) (w' : Worker) : Prop where
  /-- What is in hand stays there, unless the sink breaks down. -/
  held : w.Hands b k → w'.Hands b k ∨ w'.wait = .over .broken
  /-- The time allowed is counted from where the attempt begins. -/
  begins : w.Rests → ∀ h ∈ w'.handover?,
    h.timeoutAt = w.settings.transactionTimeout.map (now + ·)
  /-- It is not counted anew while the attempt goes on. -/
  lasts : ∀ h ∈ w.handover?, ∀ h' ∈ w'.handover?, h'.timeoutAt = h.timeoutAt
  /-- The sink does not keep a batch when the time allowed is over. -/
  overdue : ∀ h limit, w.wait = .applying h → h.timeoutAt = some limit → limit ≤ now →
    w.MovesOn now w'

section Continues

variable {w w' : Worker} {b : Batch} {k now : Nat}

/-- Who has nothing in hand may take a batch up, with the whole time that is allowed. -/
theorem continues_of_idle (hidle : w.carried? = none)
    (hbegins : w.Rests → ∀ h ∈ w'.handover?,
      h.timeoutAt = w.settings.transactionTimeout.map (now + ·)) : w.Continues b k now w' where
  held := fun hhands => nomatch hidle.symm.trans hhands.carries
  begins := hbegins
  lasts := fun h hhand => nomatch hidle.symm.trans (carried?_of_handover? hhand)
  overdue := by
    intro h limit hwait
    rw [carried?, hwait] at hidle
    cases hidle

/-- A batch that is handed on has the time that it had. -/
theorem lasts_of_handover? {h h' : Handover} (hhand : w.handover? = some h)
    (hhand' : w'.handover? = some h') (htimeout : h'.timeoutAt = h.timeoutAt) :
    ∀ h₁ ∈ w.handover?, ∀ h₂ ∈ w'.handover?, h₂.timeoutAt = h₁.timeoutAt := by
  intro h₁ hmem₁ h₂ hmem₂
  rw [← Option.some.inj (hhand.symm.trans hmem₁), ← Option.some.inj (hhand'.symm.trans hmem₂)]
  exact htimeout

/-- What is in hand stays there, with the time that it has. -/
theorem Hands.continues (hhands : w.Hands b k) (hafter : w'.Hands b k ∨ w'.wait = .over .broken)
    (hlasts : ∀ h ∈ w.handover?, ∀ h' ∈ w'.handover?, h'.timeoutAt = h.timeoutAt)
    (hoverdue : ∀ h limit, w.wait = .applying h → h.timeoutAt = some limit → limit ≤ now →
      w.MovesOn now w') : w.Continues b k now w' where
  held := fun _ => hafter
  begins := fun hrests => nomatch hrests.idle.1.symm.trans hhands.carries
  lasts := hlasts
  overdue := hoverdue

end Continues

/-- What becomes of a batch that has failed `k` times, in a turn of its worker from `w` to `w'`
    in which `es` is entered. -/
inductive Fares (w : Worker) (b : Batch) (k now : Nat) (es : List Entry) (w' : Worker) : Prop where
  /-- The attempt goes on, or the worker rests on, or it has come to an end. Nothing has failed:
      the sink has not refused the batch, events that were to be deleted are deleted, and the
      time in which to hear of it is not over. The next attempt does not come before its time. -/
  | goesOn
      (pursues : w'.Pursues b k)
      (continues : w.Continues b k now w')
      (stats_eq : w'.stats = w.stats)
      (accepts : ∀ e ∈ es, e.isRefusal = false)
      (deletes : ∀ due h, w.wait = .deleting due h → ∃ due' count, w'.wait = .deleted due' count h)
      (deletions : ∀ e ∈ es, e.isDeletion = true → ∃ due h, w.wait = .deleting due h)
      (hears : ∀ due count h, w.wait ≠ .deleted due count h)
      (patient : w.Rests →
        w'.nextCycle = w.nextCycle ∧ (w'.carried?.isSome → w.nextCycle ≤ now)) :
      Fares w b k now es w'
  /-- An attempt fails. The batch is kept for a while, or the worker gives up. -/
  | fails {error : CoordinationError}
      (hands : w.Hands b k)
      (fails : w.Fails now es error)
      (stats_eq : w'.stats = { w.stats with failedAttempts := w.stats.failedAttempts + 1 })
      (deletions : ∀ e ∈ es, e.isDeletion = false)
      (after : w'.Keeps b (k + 1) ∧ w'.nextCycle = now + w.settings.retryWait ∧
          w.settings.retryPolicy.isExhausted (k + 1) = false ∨
        w'.GivesUp ⟨k + 1, error.message⟩ ∧ w.settings.retryPolicy = .bounded (k + 1)) :
      Fares w b k now es w'
  /-- The worker hears that the events were deleted, and the batch is done. -/
  | succeeds {due count : Nat} {h : Handover}
      (deleted : w.wait = .deleted due count h)
      (due_le : due ≤ now)
      (accepts : ∀ e ∈ es, e.isRefusal = false)
      (applied : w'.stats.batchesApplied = w.stats.batchesApplied + 1)
      (failed_eq : w'.stats.failedAttempts = w.stats.failedAttempts) :
      Fares w b k now es w'
  /-- The agent may not process any more, and the batch is given up before its events are
      deleted. -/
  | loses
      (hands : w.Hands b k)
      (undeleted : w.isDeleting = false)
      (unowned : w'.link.snapshot.canProcess now = false)
      (accepts : ∀ e ∈ es, e.isRefusal = false)
      (discarded : w'.stats.discardedBatches = w.stats.discardedBatches + 1)
      (failed_eq : w'.stats.failedAttempts = w.stats.failedAttempts) :
      Fares w b k now es w'

end Worker

namespace Scene

variable {s s₁ s' : Scene} {h : Handover} {b : Batch} {k : Nat}

theorem depart_some (s : Scene) (halt : Halt) :
    (s.depart (some halt)).worker.GivesUp halt ∧
      (s.depart (some halt)).worker.stats = s.worker.stats := by
  unfold depart
  split
  · exact ⟨Or.inr ⟨rfl, rfl⟩, rfl⟩
  · exact ⟨Or.inl ⟨_, rfl⟩, rfl⟩

theorem depart_none (s : Scene) :
    (s.depart none).worker.Stops ∧ (s.depart none).worker.stats = s.worker.stats ∧
      (s.depart none).worker.nextCycle = s.worker.nextCycle := by
  unfold depart
  split
  · exact ⟨Or.inr ⟨⟨_, rfl⟩, fun _ _ h => nomatch h⟩, rfl, rfl⟩
  · exact ⟨Or.inl ⟨_, rfl⟩, rfl, rfl⟩

/-- A batch that has failed is kept, or the worker gives up. -/
theorem failBatch_worker (hbatch : h.batch = b.afterFailures k)
    (hbefore : s.worker.settings.retryPolicy.isExhausted k = false) (error : CoordinationError) :
    (s.failBatch h error).worker.stats =
      { s.worker.stats with failedAttempts := s.worker.stats.failedAttempts + 1 } ∧
    ((s.failBatch h error).worker.Keeps b (k + 1) ∧
        (s.failBatch h error).worker.nextCycle = s.now + s.worker.settings.retryWait ∧
        s.worker.settings.retryPolicy.isExhausted (k + 1) = false ∨
      (s.failBatch h error).worker.GivesUp ⟨k + 1, error.message⟩ ∧
        s.worker.settings.retryPolicy = .bounded (k + 1)) := by
  rcases h with ⟨cycle, batch, timeoutAt, ongoing⟩
  obtain rfl : batch = b.afterFailures k := hbatch
  unfold failBatch
  -- One failure less was allowed, so if this one is not, it is the last one.
  by_cases hover : s.worker.settings.retryPolicy.isExhausted (b.afterFailures k).failed.attempts
      = true
  · dsimp only
    rw [if_pos hover]
    exact ⟨(depart_some _ _).2, Or.inr ⟨(depart_some _ _).1,
      RetryPolicy.eq_bounded hbefore hover⟩⟩
  · dsimp only
    rw [if_neg hover]
    exact ⟨rfl, Or.inl ⟨⟨Or.inl ⟨_, rfl⟩, rfl, rfl, Nat.succ_pos k⟩, rfl,
      Bool.eq_false_iff.mpr hover⟩⟩

/-- A kept batch that is still that of agent and shard is handed on again. -/
theorem beginCycle_worker {batch : Batch} (hkept : s.worker.retained = some batch)
    (hcan : s.canProcess = true) (hbears : s.worker.link.snapshot.Bears batch) :
    ∃ h : Handover, h.batch = batch ∧
      h.timeoutAt = s.worker.settings.transactionTimeout.map (s.now + ·) ∧ s.beginCycle.worker =
        { s.worker with retained := none, state := .applying, wait := .applying h } := by
  have hdropped : (s.enter (.cycleBegan s.stamp)).dropForeign = s.enter (.cycleBegan s.stamp) := by
    simp only [dropForeign, enter, hkept]
    exact if_pos ⟨hcan, hbears⟩
  unfold beginCycle
  rw [hdropped]
  dsimp only
  rw [if_pos (show (s.enter (.cycleBegan s.stamp)).canProcess = true from hcan)]
  unfold nextBatch
  rw [show (s.enter (.cycleBegan s.stamp)).worker.retained = some batch from hkept]
  dsimp only [handOver, keepApplying]
  rw [if_pos]
  · exact ⟨_, rfl, rfl, rfl⟩
  · exact hcan

theorem loseOwnership_worker (s : Scene) (h : Handover) :
    (s.loseOwnership h).worker.stats =
      { s.worker.stats with discardedBatches := s.worker.stats.discardedBatches + 1 } := rfl

/-- A batch that is done is counted. -/
theorem completeBatch_worker (halone : s.worker.retained = none) (count : Nat) :
    (s.completeBatch h count).worker.stats =
      { s.worker.stats with
        batchesApplied := s.worker.stats.batchesApplied + 1
        eventsConsumed := s.worker.stats.eventsConsumed + h.batch.events.length } := by
  unfold completeBatch
  dsimp only
  -- To report that rows were missing leaves the worker as it is.
  generalize hreport : (if count < h.batch.events.length then _ else _ : Scene) = s₁
  have hafter : s₁.worker.stats = { s.worker.stats with
        batchesApplied := s.worker.stats.batchesApplied + 1
        eventsConsumed := s.worker.stats.eventsConsumed + h.batch.events.length } ∧
      s₁.worker.retained = none := by
    rw [← hreport]
    split <;> exact ⟨rfl, halone⟩
  rcases hafter with ⟨hstats, hnone⟩
  split
  · exact hstats
  · split
    · exact hstats
    · rw [nextBatch, hnone]
      exact hstats

/-- From `s` to `s'` no cycle has begun unless the agent may process, and agent and shard are
    those of the batch. -/
def Owned (s s' : Scene) (b : Batch) : Prop :=
  .cycleBegan s.stamp ∈ s'.journal.since s.journal →
    s'.canProcess = true ∧ s'.worker.link.snapshot.Bears b

/-- What comes of a batch from `s` to `s'`, with what is entered. -/
def Tries (s s' : Scene) (b : Batch) (k : Nat) : Prop :=
  ∃ es, s'.journal = es ++ s.journal ∧ (∀ e ∈ es, e.Repeats b k) ∧
    s.worker.Fares b k s.now es s'.worker

/-- A turn in which a batch is kept has begun with `s` and has come to `s₁`. -/
structure Idles (s s₁ : Scene) (b : Batch) (k : Nat) : Prop where
  stamp_eq : s₁.stamp = s.stamp
  journal : Journal.Adds (Entry.Mild b k) s.journal s₁.journal
  alike : s.worker.Alike s₁.worker

/-- Nothing is entered that matters, and the worker has not waited for a deletion. -/
theorem tries_mild (hjournal : Journal.Adds (Entry.Mild b k) s.journal s'.journal)
    (hpursues : s'.worker.Pursues b k) (hcontinues : s.worker.Continues b k s.now s'.worker)
    (hstats : s'.worker.stats = s.worker.stats) (hwait : s.worker.isDeleting = false)
    (hpatient : s.worker.Rests → s'.worker.nextCycle = s.worker.nextCycle ∧
      (s'.worker.carried?.isSome → s.worker.nextCycle ≤ s.now)) : s.Tries s' b k := by
  rcases hjournal with ⟨es, hes, hmild⟩
  have hnot := Worker.ne_of_not_isDeleting hwait
  refine ⟨es, hes, fun e he => (hmild e he).repeats, .goesOn hpursues hcontinues hstats
    (fun e he => (hmild e he).refusal) (fun due h heq => absurd heq (hnot.1 due h))
    (fun e he hdeleted => ?_) hnot.2 hpatient⟩
  exact nomatch (hmild e he).deletion.symm.trans hdeleted

section Kept

variable (hkeeps : s.worker.Keeps b k) (hmore : s.worker.settings.retryPolicy.isExhausted k = false)

include hkeeps in
/-- While a batch is kept nothing happens to it, unless the next cycle is due. -/
theorem tries_of_keeps (hjournal : Journal.Adds (Entry.Mild b k) s.journal s'.journal)
    (hpursues : s'.worker.Pursues b k) (hstats : s'.worker.stats = s.worker.stats)
    (hcycle : s'.worker.nextCycle = s.worker.nextCycle)
    (hbegins : ∀ h ∈ s'.worker.handover?,
      h.timeoutAt = s.worker.settings.transactionTimeout.map (s.now + ·))
    (hdue : s'.worker.carried?.isSome → s.worker.nextCycle ≤ s.now) : s.Tries s' b k :=
  tries_mild hjournal hpursues
    (Worker.continues_of_idle hkeeps.rests.idle.1 fun _ => hbegins) hstats
    hkeeps.rests.idle.2 fun _ => ⟨hcycle, hdue⟩

include hkeeps in
/-- The same, when no batch is taken up. -/
theorem tries_of_idle (hjournal : Journal.Adds (Entry.Mild b k) s.journal s'.journal)
    (hpursues : s'.worker.Pursues b k) (hstats : s'.worker.stats = s.worker.stats)
    (hcycle : s'.worker.nextCycle = s.worker.nextCycle) (hidle : s'.worker.carried? = none) :
    s.Tries s' b k := by
  refine tries_of_keeps hkeeps hjournal hpursues hstats hcycle (fun h hhand => ?_) fun hhand => ?_
  · exact nomatch hidle.symm.trans (Worker.carried?_of_handover? hhand)
  · rw [hidle] at hhand
    exact nomatch hhand

/-- What control has entered. -/
theorem Idles.lands (hidles : s.Idles s₁ b k) (hlands : Lands s₁ s') :
    Journal.Adds (Entry.Mild b k) s.journal s'.journal :=
  hidles.journal.marks hlands.marks fun _ => Entry.mild_of_isMark

include hkeeps hmore

/-- The batch is kept on. -/
theorem Idles.awaits (hidles : s.Idles s₁ b k) {wait : Wait}
    (hwait : ({ s₁.worker with wait } : Worker).Rests) : s.Tries (s₁.await wait) b k := by
  have hkept : (s₁.await wait).worker.Keeps b k :=
    ⟨hwait, hidles.alike.retained_eq.trans hkeeps.keeps,
      hidles.alike.state_eq.trans hkeeps.state_eq, hkeeps.failed⟩
  refine tries_of_idle hkeeps hidles.journal (.keeps hkept ?_) hidles.alike.stats_eq
    hidles.alike.cycle_eq hkept.rests.idle.1
  rw [show (s₁.await wait).worker.settings = s.worker.settings from hidles.alike.settings_eq]
  exact hmore

theorem Idles.departs (hidles : s.Idles s₁ b k) : s.Tries (s₁.depart none) b k := by
  rcases s₁.depart_none with ⟨hstops, hstats, hcycle⟩
  have hlands := (Rolls.refl s₁).depart none
  have hmore' : (s₁.depart none).worker.settings.retryPolicy.isExhausted k = false := by
    rw [hlands.settings_eq, hidles.alike.settings_eq]
    exact hmore
  refine tries_of_idle hkeeps (hidles.lands hlands) (.stops hstops hmore')
    (hstats.trans hidles.alike.stats_eq) (hcycle.trans hidles.alike.cycle_eq) ?_
  rcases hstops with ⟨_, heq⟩ | ⟨⟨_, heq⟩, _⟩ <;> rw [Worker.carried?, heq]

/-- A link that breaks down ends the worker, and the batch is left as it is. -/
theorem Idles.breaks (hidles : s.Idles s₁ b k) : s.Tries (s₁.await (.over .overflown)) b k := by
  refine tries_of_idle hkeeps hidles.journal (.stops (Or.inr ⟨⟨_, rfl⟩, fun _ _ hhalted => ?_⟩) ?_)
    hidles.alike.stats_eq hidles.alike.cycle_eq rfl
  · exact nomatch (hidles.alike.state_eq.trans hkeeps.state_eq).symm.trans hhalted
  · exact (congrArg (·.retryPolicy.isExhausted k) hidles.alike.settings_eq).trans hmore

/-- A cycle begins if it is due, and the batch is handed on again. -/
theorem Idles.cycleIfDue (hidles : s.Idles s₁ b k) (howned : s.Owned s₁.cycleIfDue b) :
    s.Tries s₁.cycleIfDue b k := by
  unfold Scene.cycleIfDue at howned ⊢
  by_cases hdue : s₁.worker.nextCycle ≤ s₁.now
  · rw [if_pos hdue] at howned ⊢
    have hlands : Lands (s₁.enter (.cycleBegan s₁.stamp)) s₁.beginCycle :=
      (Rolls.refl _).begun
    have howns : s₁.canProcess = true ∧ s₁.worker.link.snapshot.Bears b := by
      -- That the cycle has begun is in the journal.
      rcases hidles.journal with ⟨es, hes, _⟩
      rcases hlands.marks with ⟨es', hes', _⟩
      have hbegan : s₁.beginCycle.journal =
          (es' ++ .cycleBegan s₁.stamp :: es) ++ s.journal := by
        rw [hes', List.append_assoc, List.cons_append, ← hes]
        rfl
      have hmem : .cycleBegan s.stamp ∈ s₁.beginCycle.journal.since s.journal := by
        rw [hbegan, Journal.since_append, ← hidles.stamp_eq]
        exact List.mem_append_right _ List.mem_cons_self
      have howns := howned hmem
      rw [hlands.canProcess_eq, hlands.link_eq] at howns
      exact howns
    have hkept : s₁.worker.retained = some (b.afterFailures k) :=
      hidles.alike.retained_eq.trans hkeeps.keeps
    rcases beginCycle_worker hkept howns.1 howns.2 with ⟨h, hbatch, htimeout, hworker⟩
    have hnow : s₁.now = s.now := congrArg Stamp.time hidles.stamp_eq
    have hhands : s₁.beginCycle.worker.Hands b k := by
      rw [hworker]
      exact ⟨congrArg some hbatch, rfl, rfl⟩
    refine tries_of_keeps hkeeps ?_ (.hands hhands ?_) ?_ ?_ ?_ fun _ => ?_
    · exact (hidles.journal.cons (e := .cycleBegan s₁.stamp) ⟨trivial, rfl, rfl⟩).marks
        hlands.marks fun _ => Entry.mild_of_isMark
    · rw [hlands.settings_eq]
      exact (congrArg (·.retryPolicy.isExhausted k) hidles.alike.settings_eq).trans hmore
    · rw [hworker]
      exact hidles.alike.stats_eq
    · rw [hworker]
      exact hidles.alike.cycle_eq
    · intro h' hhand
      rw [hworker] at hhand
      rw [← Option.some.inj hhand, htimeout, hidles.alike.settings_eq, hnow]
    · rw [← hidles.alike.cycle_eq, ← hnow]
      exact hdue
  · rw [if_neg hdue]
    exact hidles.awaits hkeeps hmore (Or.inl ⟨_, rfl⟩)

theorem Idles.loop (hidles : s.Idles s₁ b k) (howned : s.Owned s₁.loop b) :
    s.Tries s₁.loop b k := by
  unfold Scene.loop at howned ⊢
  by_cases hraised : s₁.signal.raised = true
  · rw [if_pos hraised]
    exact hidles.departs hkeeps hmore
  · rw [if_neg hraised] at howned ⊢
    by_cases hpulse : s₁.worker.nextPulse ≤ s₁.now
    · rw [if_pos hpulse]
      exact hidles.awaits hkeeps hmore (Or.inr ⟨_, _, _, rfl⟩)
    · rw [if_neg hpulse] at howned ⊢
      exact hidles.cycleIfDue hkeeps hmore howned

/-- A turn of a worker that keeps a batch. -/
theorem tries_kept (howned : s.Owned s.resume b) : s.Tries s.resume b k := by
  have hidles : s.Idles s b k := ⟨rfl, Journal.Adds.refl _ _, .refl _⟩
  unfold resume at howned ⊢
  rcases hkeeps.rests with ⟨due, hwait⟩ | ⟨due, started, wall, hwait⟩
  · rw [hwait] at howned ⊢
    dsimp only at howned ⊢
    rcases s.wake_cases due with heq | heq | heq <;> rw [heq] at howned ⊢
    · exact hidles.loop hkeeps hmore howned
    · exact Idles.loop hkeeps hmore ⟨rfl, Journal.Adds.refl _ _, ⟨rfl, rfl, rfl, rfl, rfl⟩⟩ howned
    · exact hidles.departs hkeeps hmore
  · rw [hwait] at howned ⊢
    dsimp only at howned ⊢
    -- The pulse changes the link and the time of the next one, and nothing else.
    have hstamp : ((s.enter (.pulsed s.stamp)).attempt
        fun l => l.pulse ⟨started, wall, s.now⟩).stamp = s.stamp :=
      congrArg (Stamp.mk s.host.name · s.now)
        (Link.name_pulse s.worker.link ⟨started, wall, s.now⟩ s.host.access s.agents)
    have hjournal : Journal.Adds (Entry.Mild b k) s.journal ((s.enter (.pulsed s.stamp)).attempt
        fun l => l.pulse ⟨started, wall, s.now⟩).journal :=
      ((Journal.Adds.refl _ _).cons (e := .pulsed s.stamp) ⟨trivial, rfl, rfl⟩).addNotices
        (fun _ => ⟨trivial, rfl, rfl⟩) _
    rcases s.pulse_cases started wall with ⟨_, heq⟩ | ⟨_, heq⟩ <;> rw [heq] at howned ⊢
    · exact Idles.breaks hkeeps hmore ⟨hstamp, hjournal, ⟨rfl, rfl, rfl, rfl, rfl⟩⟩
    · exact Idles.cycleIfDue hkeeps hmore ⟨hstamp, hjournal, ⟨rfl, rfl, rfl, rfl, rfl⟩⟩ howned

end Kept

section Hand

variable (hhands : s.worker.Hands b k)
  (hmore : s.worker.settings.retryPolicy.isExhausted k = false)

include hhands

/-- Who has a batch in hand does not rest. -/
theorem not_rests_of_hands : ¬ s.worker.Rests :=
  fun hrests => nomatch hrests.idle.1.symm.trans hhands.carries

/-- The agent may not process any more. -/
theorem tries_loseOwnership (hjournal : Journal.Adds (Entry.Mild b k) s.journal s₁.journal)
    (hstats : s₁.worker.stats = s.worker.stats) (hwait : s.worker.isDeleting = false)
    (hnow : s₁.now = s.now) (hcan : s₁.canProcess = false) :
    s.Tries (s₁.loseOwnership h) b k := by
  have hnoted : Journal.Adds (Entry.Mild b k) s.journal
      (s₁.note (.ownershipLost h.batch.events.length)).journal :=
    hjournal.cons ⟨trivial, rfl, rfl⟩
  rcases hnoted.marks lands_loseOwnership.marks fun _ => Entry.mild_of_isMark with ⟨es, hes, hmild⟩
  refine ⟨es, hes, fun e he => (hmild e he).repeats,
    .loses hhands hwait ?_ (fun e he => (hmild e he).refusal) ?_ ?_⟩
  · rw [← hnow]
    exact hcan
  · rw [loseOwnership_worker, hstats]
  · rw [loseOwnership_worker, hstats]

include hmore

/-- The batch stays in hand. -/
theorem tries_await {wait : Wait} (hjournal : Journal.Adds (Entry.Mild b k) s.journal s₁.journal)
    (halike : s.worker.Alike s₁.worker)
    (hcarries : ({ s₁.worker with wait } : Worker).carried? = some (b.afterFailures k))
    (hlasts : ∀ h ∈ s.worker.handover?, ∀ h' ∈ (s₁.await wait).worker.handover?,
      h'.timeoutAt = h.timeoutAt)
    (hoverdue : ∀ h limit, s.worker.wait = .applying h → h.timeoutAt = some limit →
      limit ≤ s.now → s.worker.MovesOn s.now (s₁.await wait).worker)
    (hwait : s.worker.isDeleting = false) : s.Tries (s₁.await wait) b k := by
  have hhands' : (s₁.await wait).worker.Hands b k :=
    ⟨hcarries, halike.retained_eq.trans hhands.alone, halike.state_eq.trans hhands.state_eq⟩
  refine tries_mild hjournal (.hands hhands' ?_)
    (hhands.continues (Or.inl hhands') hlasts hoverdue) halike.stats_eq hwait
    fun hrests => absurd hrests (not_rests_of_hands hhands)
  rw [show (s₁.await wait).worker.settings = s.worker.settings from halike.settings_eq]
  exact hmore

/-- An attempt has failed. -/
theorem tries_failBatch (es : List Entry) {error : CoordinationError}
    (hworker : s₁.worker = s.worker) (hnow : s₁.now = s.now)
    (hjournal : s₁.journal = es ++ s.journal)
    (hes : ∀ e ∈ es, e.Repeats b k ∧ e.isDeletion = false) (hbatch : h.batch = b.afterFailures k)
    (hfails : ∀ es', s.worker.Fails s.now (es' ++ es) error) :
    s.Tries (s₁.failBatch h error) b k := by
  have halone : s₁.worker.retained = none := by
    rw [hworker]
    exact hhands.alone
  rcases (lands_failBatch (h := h) halone error).marks with ⟨es', hes', hmarks⟩
  have hmore₁ : s₁.worker.settings.retryPolicy.isExhausted k = false := by
    rw [hworker]
    exact hmore
  have hafter := failBatch_worker hbatch hmore₁ error
  rw [hworker, hnow] at hafter
  -- What the failure enters of its own are marks, which say nothing of the batch.
  have hall : ∀ e ∈ es' ++ es, e.Repeats b k ∧ e.isDeletion = false := by
    intro e he
    rcases List.mem_append.mp he with he | he
    · have hmild := Entry.mild_of_isMark (b := b) (k := k) (hmarks e he).1
      exact ⟨hmild.repeats, hmild.deletion⟩
    · exact hes e he
  refine ⟨es' ++ es, ?_, fun e he => (hall e he).1, .fails hhands (hfails es') hafter.1
    (fun e he => (hall e he).2) hafter.2⟩
  rw [hes', List.append_assoc, ← hjournal]

/-- The sink is done with the batch, which it has had in the scene `s₁`. -/
theorem tries_sinkDone {h₀ : Handover} (hwait : s.worker.wait = .applying h₀)
    (hworker : s₁.worker = s.worker) (hnow : s₁.now = s.now)
    (hjournal : Journal.Adds (Entry.Mild b k) s.journal s₁.journal)
    (hbatch : h.batch = b.afterFailures k) (htimeout : h.timeoutAt = h₀.timeoutAt)
    (ending : Ending) : s.Tries (s₁.sinkDone h ending) b k := by
  have hnot : s.worker.isDeleting = false := by
    rw [Worker.isDeleting, hwait]
  have halike : s.worker.Alike s₁.worker := by
    rw [hworker]
    exact .refl _
  have hrepeats : ∀ ending, Entry.Repeats b k (.ended s₁.stamp h.batch ending) :=
    fun _ => ⟨k, Nat.le_refl k, hbatch⟩
  have hhand : s.worker.handover? = some h₀ := by
    rw [Worker.handover?, hwait]
  unfold sinkDone
  cases ending with
  -- A worker whose sink breaks down stops there, with the batch still its own.
  | broken =>
      refine tries_mild (hjournal.cons ⟨hrepeats _, rfl, rfl⟩)
        (.stops (Or.inr ⟨⟨_, rfl⟩, fun _ _ hhalted => ?_⟩) ?_)
        (hhands.continues (Or.inr rfl) (fun _ _ _ hnone => nomatch hnone)
          fun _ _ _ _ _ => Or.inr (Or.inr rfl))
        halike.stats_eq hnot fun hrests => absurd hrests (not_rests_of_hands hhands)
      · exact nomatch (halike.state_eq.trans hhands.state_eq).symm.trans hhalted
      · exact (congrArg (·.retryPolicy.isExhausted k) halike.settings_eq).trans hmore
  | refused message =>
      rcases hjournal with ⟨es, hes, hmild⟩
      have hended : (s₁.enter (.ended s₁.stamp h.batch (.refused message))).journal =
          (.ended s₁.stamp h.batch (.refused message) :: es) ++ s.journal :=
        congrArg (List.cons _) hes
      refine tries_failBatch hhands hmore _ hworker hnow hended ?_ hbatch
        fun es' => .refused hwait (List.mem_append_right es' List.mem_cons_self)
      intro e he
      rcases List.mem_cons.mp he with rfl | he
      · exact ⟨hrepeats _, rfl⟩
      · exact ⟨(hmild e he).repeats, (hmild e he).deletion⟩
  | accepted =>
      have hended : Journal.Adds (Entry.Mild b k) s.journal
          (s₁.enter (.ended s₁.stamp h.batch .accepted)).journal :=
        hjournal.cons ⟨hrepeats _, rfl, rfl⟩
      dsimp only
      split
      · refine tries_await hhands hmore (hended.cons ⟨?_, rfl, rfl⟩) halike
          (congrArg some hbatch) (Worker.lasts_of_handover? hhand rfl htimeout)
          (fun _ _ _ _ _ => Or.inl ⟨_, _, rfl⟩) hnot
        exact ⟨k, Nat.le_refl k, hbatch⟩
      · rename_i hcan
        exact tries_loseOwnership hhands hended halike.stats_eq hnot hnow
          (Bool.eq_false_iff.mpr hcan)

/-- Whatever branch is taken up while the sink has the batch. -/
theorem tries_race (hwait : s.worker.wait = .applying h) {branches : List Branch}
    (hmem : .timeout ∈ branches) : s.Tries (s.race h branches) b k := by
  have hbatch : h.batch = b.afterFailures k := by
    have hcarries := hhands.carries
    rw [Worker.carried?, hwait] at hcarries
    exact Option.some.inj hcarries
  have hnot : s.worker.isDeleting = false := by
    rw [Worker.isDeleting, hwait]
  rcases race_cases s h branches with ⟨s₁, h₁, hasked, hraced⟩
  have hfirst : s₁.worker = s.worker ∧ s₁.now = s.now ∧ h₁.batch = h.batch ∧
      h₁.timeoutAt = h.timeoutAt ∧ Journal.Adds (Entry.Mild b k) s.journal s₁.journal := by
    -- That the sink is asked is entered, with what it reports, and leaves the worker alone.
    cases hasked with
    | before => exact ⟨rfl, rfl, rfl, rfl, Journal.Adds.refl _ _⟩
    | now _ =>
        have hbegan : Entry.Repeats b k (.began s.stamp s.worker.link.snapshot h.batch) :=
          ⟨k, Nat.le_refl k, hbatch⟩
        exact ⟨rfl, rfl, rfl, rfl, ((Journal.Adds.refl _ _).cons ⟨hbegan, rfl, rfl⟩).addNotices
          (fun _ => ⟨trivial, rfl, rfl⟩) _⟩
  rcases hfirst with ⟨hworker, hnow, hbatch₁, htimeout₁, hjournal⟩
  have hbatch₁ : h₁.batch = b.afterFailures k := hbatch₁.trans hbatch
  have halike : s.worker.Alike s₁.worker := by
    rw [hworker]
    exact .refl _
  have hhand : s.worker.handover? = some h := by
    rw [Worker.handover?, hwait]
  have hleft : ∀ limit, h.timeoutAt = some limit → limit ≤ s.now →
      (s.race h branches).worker.wait ≠ .applying h₁ := by
    intro limit hlimit hle
    refine wait_race_of_timeout hmem ?_ h₁
    rw [hlimit]
    exact decide_eq_true hle
  generalize s.race h branches = s' at hraced hleft ⊢
  cases hraced with
  | nothing =>
      refine tries_await hhands hmore hjournal halike (congrArg some hbatch₁)
        (Worker.lasts_of_handover? hhand rfl htimeout₁) ?_ hnot
      intro h' limit hwait' hlimit hle
      obtain rfl := Wait.applying.inj (hwait.symm.trans hwait')
      exact absurd rfl (hleft limit hlimit hle)
  | sink _ _ => exact tries_sinkDone hhands hmore hwait hworker hnow hjournal hbatch₁ htimeout₁ _
  | renewal hpulse =>
      rw [hworker, hnow] at hpulse
      exact tries_await hhands hmore hjournal halike (congrArg some hbatch₁)
        (Worker.lasts_of_handover? hhand rfl htimeout₁)
        (fun _ _ _ _ _ => Or.inr (Or.inl ⟨⟨_, _, _, _, rfl⟩, hpulse⟩)) hnot
  | deadline hcan => exact tries_loseOwnership hhands hjournal halike.stats_eq hnot hnow hcan
  | @timeout limit hlimit hle =>
      rcases hjournal with ⟨es, hes, hmild⟩
      rw [hnow] at hle
      have htimedOut : ∀ es', s.worker.Fails s.now (es' ++ es) (.transactionTimeout
          (s₁.worker.settings.transactionTimeout.getD 0 * 1000000)) := by
        intro es'
        rw [hworker]
        exact .timedOut hhand (htimeout₁.symm.trans hlimit) hle
          fun due count h' heq => absurd heq ((Worker.ne_of_not_isDeleting hnot).2 due count h')
      exact tries_failBatch hhands hmore es hworker hnow hes
        (fun e he => ⟨(hmild e he).repeats, (hmild e he).deletion⟩) hbatch₁ htimedOut

/-- A renewal leaves the batch in hand, as long as the agent may process. -/
theorem tries_renew {due started : Nat} {wall : Int}
    (hwait : s.worker.wait = .renewing due started wall h) (started' : Nat) (wall' : Int) :
    s.Tries (s.renew started' wall' h) b k := by
  have hcarries := hhands.carries
  rw [Worker.carried?, hwait] at hcarries
  have hnot : s.worker.isDeleting = false := by
    rw [Worker.isDeleting, hwait]
  have hhand : s.worker.handover? = some h := by
    rw [Worker.handover?, hwait]
  have hjournal : Journal.Adds (Entry.Mild b k) s.journal ((s.enter (.renewed s.stamp)).attempt
      fun l => l.renew ⟨started', wall', s.now⟩).journal :=
    ((Journal.Adds.refl _ _).cons (e := .renewed s.stamp) ⟨trivial, rfl, rfl⟩).addNotices
      (fun _ => ⟨trivial, rfl, rfl⟩) _
  unfold renew
  dsimp only [keepApplying]
  split
  · refine tries_await hhands hmore ?_ ⟨rfl, rfl, rfl, rfl, rfl⟩ hcarries
      (Worker.lasts_of_handover? hhand rfl rfl) ?_ hnot
    · exact hjournal
    · exact fun _ _ hwait' => by cases hwait.symm.trans hwait'
  · rename_i hcan
    refine tries_loseOwnership hhands ?_ rfl hnot rfl (Bool.eq_false_iff.mpr hcan)
    exact hjournal

/-- The time allowed is over before something is heard of a deletion. -/
theorem tries_timeOut {due limit : Nat} (hhand : s.worker.handover? = some h)
    (hlimit : h.timeoutAt = some limit) (hle : limit ≤ s.now) (hlate : s.now < due)
    (hwait : ∀ due' count h', s.worker.wait = .deleted due' count h' → due' = due) :
    s.Tries (s.timeOut h) b k := by
  have hbatch : h.batch = b.afterFailures k :=
    Option.some.inj ((Worker.carried?_of_handover? hhand).symm.trans hhands.carries)
  exact tries_failBatch hhands hmore [] rfl rfl rfl
    (fun _ he => absurd he List.not_mem_nil) hbatch fun _ => .timedOut hhand hlimit hle
      fun due' count h' heq => (hwait due' count h' heq).symm ▸ hlate

/-- The events are deleted, or that fails. -/
theorem tries_delete {due : Nat} (hwait : s.worker.wait = .deleting due h)
    (hdue : ∃ first, s.worker.dueAt s.signal = some first ∧ first ≤ s.now) :
    s.Tries (s.delete h due) b k := by
  have hcarries := hhands.carries
  rw [Worker.carried?, hwait] at hcarries
  have hhand : s.worker.handover? = some h := by
    rw [Worker.handover?, hwait]
  unfold delete
  by_cases hnow : due ≤ s.now
  · rw [if_pos hnow]
    dsimp only [strike]
    cases hstrike : (s.host.access.faults.strike .deleteEvents).1 with
    | some error =>
        refine tries_failBatch hhands hmore [] rfl rfl ?_
          (fun _ he => absurd he List.not_mem_nil) (Option.some.inj hcarries)
          fun _ => .undeleted hwait
        rfl
    | none =>
        have hdeleted : Entry.Repeats b k
            (.deleted s.stamp h.batch.ids (s.outbox.count h.batch.ids)) := by
          rw [Option.some.inj hcarries]
          rfl
        refine ⟨[.deleted s.stamp h.batch.ids (s.outbox.count h.batch.ids)], rfl, ?_,
          .goesOn (.hands ⟨hcarries, hhands.alone, hhands.state_eq⟩ hmore)
            (hhands.continues (Or.inl ⟨hcarries, hhands.alone, hhands.state_eq⟩)
              (Worker.lasts_of_handover? hhand rfl rfl) ?_) rfl
            ?_ ?_ ?_ ?_ fun hrests => absurd hrests (not_rests_of_hands hhands)⟩
        · exact fun e he => List.mem_singleton.mp he ▸ hdeleted
        · exact fun _ _ hwait' => by cases hwait.symm.trans hwait'
        · exact fun e he => List.mem_singleton.mp he ▸ rfl
        · intro due' h' heq
          obtain ⟨-, rfl⟩ := Wait.deleting.inj (hwait.symm.trans heq)
          exact ⟨_, _, rfl⟩
        · exact fun _ _ _ => ⟨due, h, hwait⟩
        · exact fun _ _ _ heq => by cases hwait.symm.trans heq
  · rw [if_neg hnow]
    -- The turn has come before that, so the time allowed is over.
    rcases hdue with ⟨first, hfirst, hle⟩
    rw [Worker.dueAt, hwait] at hfirst
    rcases Worker.exists_of_earlier hfirst hle (Nat.lt_of_not_le hnow) with ⟨limit, hlimit, hle⟩
    exact tries_timeOut hhands hmore hhand hlimit hle (Nat.lt_of_not_le hnow)
      fun _ _ _ heq => by cases hwait.symm.trans heq

/-- The worker hears that the events were deleted, or the time allowed is over before. -/
theorem tries_confirm {bound due count : Nat} (hwait : s.worker.wait = .deleted due count h)
    (hsound : s.worker.Sound s.host.name s.journal s.now bound)
    (hdue : ∃ first, s.worker.dueAt s.signal = some first ∧ first ≤ s.now) :
    s.Tries (s.confirm h due count) b k := by
  unfold confirm
  by_cases hnow : due ≤ s.now
  · rw [if_pos hnow]
    -- Nothing else is kept, so the worker does not hand on anything in the same turn.
    have hheld := hsound.waits
    rw [Worker.Waits, hwait] at hheld
    rcases (lands_completeBatch hheld.alone hheld.agent hheld.shard count).marks with
      ⟨es, hes, hmarks⟩
    have hstats := completeBatch_worker (h := h) hheld.alone count
    have hmild : ∀ e ∈ es, e.Mild b k := fun e he => Entry.mild_of_isMark (hmarks e he).1
    refine ⟨es, hes, fun e he => (hmild e he).repeats,
      .succeeds hwait hnow (fun e he => (hmild e he).refusal) ?_ ?_⟩
    · rw [hstats]
    · rw [hstats]
  · rw [if_neg hnow]
    -- The turn has come before that, so the time allowed is over.
    rcases hdue with ⟨first, hfirst, hle⟩
    rw [Worker.dueAt, hwait] at hfirst
    rcases Worker.exists_of_earlier hfirst hle (Nat.lt_of_not_le hnow) with ⟨limit, hlimit, hle⟩
    refine tries_timeOut hhands hmore ?_ hlimit hle (Nat.lt_of_not_le hnow)
      fun _ _ _ heq => (Wait.deleted.inj (hwait.symm.trans heq)).1.symm
    rw [Worker.handover?, hwait]

/-- A turn of a worker that has a batch in hand. -/
theorem tries_hand {bound : Nat} (hsound : s.worker.Sound s.host.name s.journal s.now bound)
    (hdue : ∃ first, s.worker.dueAt s.signal = some first ∧ first ≤ s.now) :
    s.Tries s.resume b k := by
  unfold resume
  cases hwait : s.worker.wait with
  | applying h => exact tries_race hhands hmore hwait (mem_branches .timeout s.skip)
  | renewing due started wall h => exact tries_renew hhands hmore hwait started wall
  | deleting due h => exact tries_delete hhands hmore hwait hdue
  | deleted due count h => exact tries_confirm hhands hmore hwait hsound hdue
  | _ =>
      have hcarries := hhands.carries
      rw [Worker.carried?, hwait] at hcarries
      cases hcarries

end Hand

/-- Who leaves comes to the end for which it leaves. -/
theorem tries_leave {due : Nat} {halt : Option Halt} (hwait : s.worker.wait = .leaving due halt)
    (hpursues : (s.leave halt).worker.Pursues b k) : s.Tries (s.leave halt) b k := by
  have hjournal : Journal.Adds (Entry.Mild b k) s.journal (s.attempt fun l => l.leave).journal :=
    (Journal.Adds.refl _ _).addNotices (fun _ => ⟨trivial, rfl, rfl⟩) _
  have hnot : s.worker.isDeleting = false := by
    rw [Worker.isDeleting, hwait]
  have hrests : ¬ s.worker.Rests := by
    rintro (⟨_, heq⟩ | ⟨_, _, _, heq⟩) <;> cases hwait.symm.trans heq
  have hcontinues : s.worker.Continues b k s.now (s.leave halt).worker := by
    refine Worker.continues_of_idle ?_ fun h => absurd h hrests
    rw [Worker.carried?, hwait]
  cases halt with
  | none =>
      refine tries_mild ?_ hpursues hcontinues rfl hnot fun h => absurd h hrests
      exact hjournal.cons ⟨trivial, rfl, rfl⟩
  | some halt =>
      refine tries_mild ?_ hpursues hcontinues rfl hnot fun h => absurd h hrests
      exact hjournal

/-- A turn of a worker that has come to an end, or is about to. -/
theorem tries_end (hpursues : s.worker.Pursues b k)
    (hends : (∃ halt, s.worker.GivesUp halt ∧ halt.attempts = k ∧
      s.worker.settings.retryPolicy = .bounded k) ∨
      s.worker.Stops ∧ s.worker.settings.retryPolicy.isExhausted k = false) :
    s.Tries s.resume b k := by
  -- Who has come to its end does nothing any more.
  have hover : ∀ how, s.worker.wait = .over how → s.Tries s.resume b k := by
    intro how hwait
    unfold resume
    rw [hwait]
    have hrests : ¬ s.worker.Rests := by
      rintro (⟨_, heq⟩ | ⟨_, _, _, heq⟩) <;> cases hwait.symm.trans heq
    refine tries_mild (Journal.Adds.refl _ _) hpursues
      (Worker.continues_of_idle ?_ fun h => absurd h hrests) rfl ?_ fun h => absurd h hrests
    · rw [Worker.carried?, hwait]
    · rw [Worker.isDeleting, hwait]
  have hleave : ∀ due halt, s.worker.wait = .leaving due halt →
      (s.leave halt).worker.Pursues b k → s.Tries s.resume b k := by
    intro due halt hwait hafter
    unfold resume
    rw [hwait]
    exact tries_leave hwait hafter
  rcases hends with ⟨halt, ⟨due, hwait⟩ | ⟨hwait, _⟩, hattempts, hpolicy⟩ |
    ⟨⟨due, hwait⟩ | ⟨⟨how, hwait⟩, _⟩, hmore⟩
  · exact hleave due _ hwait (.givesUp (Or.inr ⟨rfl, rfl⟩) hattempts hpolicy)
  · exact hover _ hwait
  · exact hleave due _ hwait (.stops (Or.inr ⟨⟨_, rfl⟩, fun _ _ h => by cases h⟩) hmore)
  · exact hover how hwait

/-- Whatever the worker does in its turn, it goes on with the batch that it pursues, or the batch
    has failed once more, is done, or is lost with the shard. -/
theorem resume_tries {bound : Nat} (hsound : s.worker.Sound s.host.name s.journal s.now bound)
    (hdue : ∃ first, s.worker.dueAt s.signal = some first ∧ first ≤ s.now)
    (hpursues : s.worker.Pursues b k) (howned : s.Owned s.resume b) : s.Tries s.resume b k := by
  cases hpursues with
  | hands hhands hmore => exact tries_hand hhands hmore hsound hdue
  | keeps hkeeps hmore => exact tries_kept hkeeps hmore howned
  | givesUp hgives hattempts hpolicy =>
      exact tries_end (.givesUp hgives hattempts hpolicy) (Or.inl ⟨_, hgives, hattempts, hpolicy⟩)
  | stops hstops hmore => exact tries_end (.stops hstops hmore) (Or.inr ⟨hstops, hmore⟩)

/-- A search that has found something leaves it in hand, unless it is given up at once. -/
theorem poll_hands {cycle : Cycle} {snapshot : Snapshot} {assignment : Option Assignment}
    {events : List OutboxEvent} (halone : s.worker.retained = none)
    (hfound : .searched s.stamp snapshot assignment (some events) ∈
      (s.poll cycle).journal.since s.journal) (hne : events ≠ [])
    (hkept : (s.poll cycle).worker.stats.discardedBatches = s.worker.stats.discardedBatches) :
    snapshot = s.worker.link.snapshot ∧
      (s.poll cycle).worker.Hands ⟨events, cycle.agentId, cycle.assignment, 0⟩ 0 ∧
      ∀ h ∈ (s.poll cycle).worker.handover?,
        h.timeoutAt = (s.poll cycle).worker.settings.transactionTimeout.map (s.now + ·) := by
  rcases poll_outcome s cycle with ⟨found, hnone, hlands⟩ | ⟨found, _, _, ⟨_, heq⟩ | ⟨_, heq⟩⟩
  · -- Control does not search, so this is the search, and it has found nothing.
    rcases hlands.marks with ⟨es, hes, hmarks⟩
    have hsplit : (s.poll cycle).journal = (es ++ [.searched s.stamp s.worker.link.snapshot
        cycle.assignment found]) ++ s.journal := by
      rw [hes, List.append_assoc]
      rfl
    rw [hsplit, Journal.since_append] at hfound
    rcases List.mem_append.mp hfound with hmark | hthis
    · exact nomatch (hmarks _ hmark).1
    · rw [← (Entry.searched.inj (List.mem_singleton.mp hthis)).2.2.2] at hnone
      exact absurd hnone hne
  · have hsplit : (s.poll cycle).journal = [.searched s.stamp s.worker.link.snapshot
        cycle.assignment (some found)] ++ s.journal := by
      rw [heq]
      rfl
    rw [hsplit, Journal.since_append, List.mem_singleton] at hfound
    obtain ⟨-, rfl, -, hevents⟩ := Entry.searched.inj hfound
    obtain rfl := Option.some.inj hevents
    rw [heq]
    refine ⟨rfl, ⟨rfl, halone, rfl⟩, fun h hhand => ?_⟩
    rw [← Option.some.inj hhand]
    rfl
  · rw [heq, loseOwnership_worker] at hkept
    exact absurd hkept (Nat.succ_ne_self _)

end Scene

end OutboxCluster
