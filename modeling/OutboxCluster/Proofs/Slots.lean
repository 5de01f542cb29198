import OutboxCluster.Proofs.Failures
import OutboxCluster.Scheduler.Timed
import Mathlib.Data.List.Forall2

/-!
# Who Holds a Slot

What a scheduler does next depends only on what was done to it, and on little of that: on
the time, and on who was accepted since it was last shut down. `Admissions` is the book
that a porter would keep. It counts those who came in and forgets them all at a shutdown,
and it knows nothing of workers that sleep, finish or fail.

The scheduler itself holds the workers in every state they can be in. `Admission.Fits` says
how a worker stands to its line in the book: a worker that was accepted at an instant is
due one sleep later, it waits until then and not longer, and how it ends was settled when it
came. Every step keeps this (`fits_step`), so the book foretells what the scheduler answers:
a worker that is done still has its line and so its slot, and one that was let in before a
shutdown has none and can do nothing afterwards.

## Main definitions

* `TimedScheduler.Event`, `TimedScheduler.run`: What can be done to a scheduler.
* `Admission`, `Admissions`: The book of those who were accepted.
* `Admission.Fits`: A worker and its line in the book.

## Theorems

* `Admission.Fits.advance`: What becomes of a worker when time moves on.
* `fits_step`, `fits_run`: The book is right.
* `spawned_of_mem_run`: Who is there after a shutdown has come after it.
* `slots_follow_admissions`: What a scheduler answers.
-/

namespace OutboxCluster

/-- A worker that was accepted, and when. -/
structure Admission where
  name : String
  delay : Nat
  fails : Bool
  since : Nat
deriving DecidableEq, Repr

namespace Admission

/-- The instant at which the sleep of the worker is over. -/
def due (a : Admission) : Nat := a.since + a.delay

/-- Whether the worker has failed before this instant. -/
def failedBy (now : Nat) (a : Admission) : Bool := a.fails && decide (a.due < now)

/-- Whether the worker finishes from `now` on and before `stop`. -/
def finishesWithin (now stop : Nat) (a : Admission) : Bool :=
  ! a.fails && (decide (now ≤ a.due) && decide (a.due < stop))

/-- How far the worker may have come. -/
def Allows (a : Admission) (now : Nat) : SleepPhase → Prop
  | .accepted => now = a.since
  | .asleep wake => wake = a.due ∧ now ≤ a.due
  | .finished => a.fails = false ∧ a.due < now
  | .failed => a.fails = true ∧ a.due < now

/-- The worker is the one that was accepted. -/
structure Fits (now : Nat) (a : Admission) (w : SleepingWorker) : Prop where
  name_eq : w.name = a.name
  delay_eq : w.delay = a.delay
  fails_eq : w.fails = a.fails
  phase : a.Allows now w.phase

namespace Fits

variable {now : Nat} {a : Admission} {w : SleepingWorker}

/-- A worker wakes when it is due, unless it is done. -/
theorem wake?_eq (h : Fits now a w) :
    (w.wake? now = some a.due ∧ now ≤ a.due) ∨ (w.wake? now = none ∧ a.due < now) := by
  have hphase := h.phase
  have hdelay := h.delay_eq
  cases hw : w.phase with
  -- Who was accepted and has not slept yet was accepted at this instant.
  | accepted =>
      rw [hw] at hphase
      have hnow : now = a.since := hphase
      refine Or.inl ⟨?_, ?_⟩
      · simp only [SleepingWorker.wake?, hw, hdelay, hnow, due]
      · simp only [due]
        omega
  | asleep wake =>
      rw [hw] at hphase
      refine Or.inl ⟨?_, hphase.2⟩
      simp only [SleepingWorker.wake?, hw, hphase.1]
  | finished =>
      rw [hw] at hphase
      exact Or.inr ⟨by simp only [SleepingWorker.wake?, hw], hphase.2⟩
  | failed =>
      rw [hw] at hphase
      exact Or.inr ⟨by simp only [SleepingWorker.wake?, hw], hphase.2⟩

/-- A worker that is done has ended as it was to end. -/
theorem phase_eq_of_done (h : Fits now a w) (hdone : w.wake? now = none) :
    w.phase = if a.fails then .failed else .finished := by
  have hphase := h.phase
  cases hw : w.phase with
  | accepted | asleep => simp only [SleepingWorker.wake?, hw, reduceCtorEq] at hdone
  | finished =>
      rw [hw] at hphase
      rw [hphase.1]
      rfl
  | failed =>
      rw [hw] at hphase
      rw [hphase.1]
      rfl

/-- Time moves on, and the worker sleeps on or is done. -/
theorem advance (h : Fits now a w) (ms : Nat) : Fits (now + ms) a (w.advance now (now + ms)) := by
  unfold SleepingWorker.advance
  rcases h.wake?_eq with ⟨hwake, hbefore⟩ | ⟨hdone, hafter⟩
  · rw [hwake]
    dsimp only
    -- Who is due at the very end is still asleep then.
    by_cases hover : a.due < now + ms
    · rw [if_pos hover]
      refine ⟨h.name_eq, h.delay_eq, h.fails_eq, ?_⟩
      dsimp only
      rw [h.fails_eq]
      cases hfails : a.fails with
      | true => exact ⟨hfails, hover⟩
      | false => exact ⟨hfails, hover⟩
    · rw [if_neg hover]
      exact ⟨h.name_eq, h.delay_eq, h.fails_eq, rfl, by omega⟩
  · rw [hdone]
    refine ⟨h.name_eq, h.delay_eq, h.fails_eq, ?_⟩
    rw [h.phase_eq_of_done hdone]
    cases hfails : a.fails with
    | true => exact ⟨hfails, by omega⟩
    | false => exact ⟨hfails, by omega⟩

/-- Which workers have failed is read off the book. -/
theorem hasFailed_eq (h : Fits now a w) : w.hasFailed = a.failedBy now := by
  rcases h.wake?_eq with ⟨hwake, hbefore⟩ | ⟨hdone, hafter⟩
  · have hbook : a.failedBy now = false := by
      rw [failedBy, decide_eq_false (by omega), Bool.and_false]
    rw [hbook]
    -- A worker that wakes some day is in neither of the two last states.
    cases hw : w.phase with
    | accepted | asleep => simp only [SleepingWorker.hasFailed, hw]; rfl
    | finished | failed => simp only [SleepingWorker.wake?, hw, reduceCtorEq] at hwake
  · rw [SleepingWorker.hasFailed, h.phase_eq_of_done hdone, failedBy, decide_eq_true hafter]
    cases a.fails with
    | true => rfl
    | false => rfl

/-- Which workers finish while time moves on is read off the book. -/
theorem finishes_eq (h : Fits now a w) (stop : Nat) :
    (w.wakesBefore now stop && ! w.fails) = a.finishesWithin now stop := by
  rw [SleepingWorker.wakesBefore, finishesWithin, h.fails_eq, Bool.and_comm]
  rcases h.wake?_eq with ⟨hwake, hbefore⟩ | ⟨hdone, hafter⟩
  · rw [hwake, Option.any_some, decide_eq_true hbefore, Bool.true_and]
  · rw [hdone, Option.any_none, decide_eq_false (by omega : ¬ now ≤ a.due), Bool.false_and]

end Fits

end Admission

/-- A test that says the same of workers and of their lines picks out workers and lines
    that belong together. -/
theorem forall₂_filter {α β : Type} {r : α → β → Prop} {p : α → Bool} {q : β → Bool}
    {as : List α} {bs : List β} (h : List.Forall₂ r as bs) (hpq : ∀ a b, r a b → q b = p a) :
    List.Forall₂ r (as.filter p) (bs.filter q) := by
  induction h with
  | nil => exact List.Forall₂.nil
  | @cons a b as bs hab _ ih =>
      rw [List.filter_cons, List.filter_cons, hpq a b hab]
      split
      · exact List.Forall₂.cons hab ih
      · exact ih

namespace TimedScheduler

/-- What can be done to a scheduler. -/
inductive Event where
  | spawn (name : String) (delay : Nat) (fails : Bool)
  | advance (ms : Nat)
  | shutdown
deriving DecidableEq, Repr

/-- The scheduler after something was done to it. -/
def step (t : TimedScheduler) : Event → TimedScheduler
  | .spawn name delay fails => (t.spawn { name, delay, fails }).2
  | .advance ms => (t.advance ms).2
  | .shutdown => t.shutdown.2.2

/-- The scheduler after several things were done to it. -/
def run (t : TimedScheduler) (events : List Event) : TimedScheduler := events.foldl step t

end TimedScheduler

/-- The time, and who was accepted since the last shutdown, in order. -/
structure Admissions where
  now : Nat := 0
  held : List Admission := []
deriving DecidableEq, Repr

namespace Admissions

/-- Keep the book. -/
def note (capacity : Nat) (b : Admissions) : TimedScheduler.Event → Admissions
  | .spawn name delay fails =>
    if b.held.length < capacity then { b with held := b.held ++ [⟨name, delay, fails, b.now⟩] }
    else b
  | .advance ms => { b with now := b.now + ms }
  | .shutdown => { b with held := [] }

/-- The book after several events. -/
def after (capacity : Nat) (events : List TimedScheduler.Event) : Admissions :=
  events.foldl (note capacity) {}

/-- The names of those who finish while time moves on. -/
def finishing (b : Admissions) (ms : Nat) : List String :=
  (b.held.filter (·.finishesWithin b.now (b.now + ms))).map (·.name)

/-- The slots of those who have failed, in the order in which they were accepted. -/
def failed (b : Admissions) : List Nat := slotsOf (·.failedBy b.now) b.held

/-- The book is right about a scheduler. -/
structure Fits (capacity : Nat) (b : Admissions) (t : TimedScheduler) : Prop where
  capacity_eq : t.scheduler.capacity = capacity
  now_eq : t.now = b.now
  workers : List.Forall₂ (Admission.Fits b.now) b.held t.scheduler.workers
  length_le : b.held.length ≤ capacity

end Admissions

namespace TimedScheduler

variable {capacity : Nat} {b : Admissions} {t : TimedScheduler}

/-- There are as many workers as lines. -/
theorem length_eq (h : b.Fits capacity t) : t.scheduler.workers.length = b.held.length :=
  h.workers.length_eq.symm

/-- A free slot is given to whoever comes first. -/
theorem spawn_of_lt (h : b.Fits capacity t) (hfree : b.held.length < capacity)
    (w : SleepingWorker) :
    t.spawn w = (.ok (), { t with scheduler.workers := t.scheduler.workers ++ [w] }) := by
  have hroom : ¬ t.scheduler.capacity ≤ t.scheduler.workers.length := by
    rw [length_eq h, h.capacity_eq]
    omega
  simp only [spawn, Scheduler.spawn, if_neg hroom]

/-- Without one nobody comes in, and nothing happens. -/
theorem spawn_of_full (h : b.Fits capacity t) (hfull : capacity ≤ b.held.length)
    (w : SleepingWorker) : t.spawn w = (.error (.schedulerFull capacity), t) := by
  have hnone : t.scheduler.capacity ≤ t.scheduler.workers.length := by
    rw [length_eq h, h.capacity_eq]
    exact hfull
  simp only [spawn, Scheduler.spawn, if_pos hnone]
  rw [h.capacity_eq]

/-- A scheduler that was shut down is as good as new. -/
theorem shutdown_eq (h : b.Fits capacity t) :
    t.shutdown.2.2 = { scheduler := { capacity }, now := b.now } := by
  simp only [shutdown, Scheduler.emptied, h.capacity_eq, h.now_eq]

/-- The book is right after every step. -/
theorem fits_step (h : b.Fits capacity t) (e : Event) :
    (b.note capacity e).Fits capacity (t.step e) := by
  cases e with
  | spawn name delay fails =>
      by_cases hfree : b.held.length < capacity
      · simp only [step, Admissions.note, if_pos hfree, spawn_of_lt h hfree]
        refine ⟨h.capacity_eq, h.now_eq, ?_, ?_⟩
        · -- Who has just been accepted has not begun to sleep.
          refine List.rel_append h.workers (List.Forall₂.cons ?_ List.Forall₂.nil)
          exact ⟨rfl, rfl, rfl, rfl⟩
        · rw [List.length_append, List.length_singleton]
          omega
      · simp only [step, Admissions.note, if_neg hfree, spawn_of_full h (Nat.le_of_not_lt hfree)]
        exact h
  | advance ms =>
      refine ⟨h.capacity_eq, ?_, ?_, h.length_le⟩
      · simp only [step, advance, Admissions.note, h.now_eq]
      · simp only [step, advance, Admissions.note, h.now_eq]
        exact List.forall₂_map_right_iff.mpr (h.workers.imp fun a w hfits => hfits.advance ms)
  | shutdown =>
      simp only [step, shutdown_eq h]
      exact ⟨rfl, rfl, List.Forall₂.nil, Nat.zero_le capacity⟩

theorem fits_run (h : b.Fits capacity t) (events : List Event) :
    (events.foldl (Admissions.note capacity) b).Fits capacity (t.run events) := by
  induction events generalizing b t with
  | nil => exact h
  | cons e events ih => exact ih (fits_step h e)

theorem fits_after (capacity : Nat) (events : List Event) :
    (Admissions.after capacity events).Fits capacity
      (({ scheduler := { capacity } } : TimedScheduler).run events) := by
  have hempty : ({} : Admissions).Fits capacity { scheduler := { capacity } } :=
    ⟨rfl, rfl, List.Forall₂.nil, Nat.zero_le capacity⟩
  exact fits_run hempty events

/-- The workers that finish are those of the book, though perhaps in another order. -/
theorem advance_perm (h : b.Fits capacity t) (ms : Nat) :
    (t.advance ms).1.Perm (b.finishing ms) := by
  have hpicked := forall₂_filter h.workers
    (fun a w hfits => Admission.Fits.finishes_eq hfits (b.now + ms))
  have hnames : (t.scheduler.workers.filter fun w =>
      w.wakesBefore b.now (b.now + ms) && ! w.fails).map (·.name) = b.finishing ms := by
    refine List.forall₂_eq_eq_eq ▸ ?_
    rw [List.forall₂_map_left_iff, Admissions.finishing, List.forall₂_map_right_iff]
    exact hpicked.flip.imp fun w a hfits => hfits.name_eq
  rw [← hnames]
  simp only [advance, h.now_eq]
  exact (List.mergeSort_perm _ _).map _

/-- The slots of those who have failed are the ones in the book. -/
theorem slotsOf_hasFailed (h : b.Fits capacity t) :
    slotsOf SleepingWorker.hasFailed t.scheduler.workers = b.failed := by
  have hanswers : t.scheduler.workers.map SleepingWorker.hasFailed =
      b.held.map (·.failedBy b.now) := by
    refine List.forall₂_eq_eq_eq ▸ ?_
    rw [List.forall₂_map_left_iff, List.forall₂_map_right_iff]
    exact h.workers.flip.imp fun w a hfits => hfits.hasFailed_eq
  have hslots := congrArg (slotsOf id) hanswers
  rwa [slotsOf_map, slotsOf_map] at hslots

/-- A shutdown reports those who have failed by the book. -/
theorem shutdown_reports (h : b.Fits capacity t) :
    CoordinationError.Reports (b.failed.map .join) t.shutdown.1 := by
  rw [← slotsOf_hasFailed h]
  exact CoordinationError.collect_reports _

/-- Who is there after a step was there before, or has just been let in. -/
theorem spawned_of_mem_step {e : Event} {w : SleepingWorker}
    (hw : w ∈ (t.step e).scheduler.workers) : e = .spawn w.name w.delay w.fails ∨
      ∃ v ∈ t.scheduler.workers, v.name = w.name ∧ v.delay = w.delay ∧ v.fails = w.fails := by
  cases e with
  | spawn name delay fails =>
      by_cases hfull : t.scheduler.capacity ≤ t.scheduler.workers.length
      · simp only [step, spawn, Scheduler.spawn, if_pos hfull] at hw
        exact Or.inr ⟨w, hw, rfl, rfl, rfl⟩
      · simp only [step, spawn, Scheduler.spawn, if_neg hfull, List.mem_append,
          List.mem_singleton] at hw
        rcases hw with hbefore | rfl
        · exact Or.inr ⟨w, hbefore, rfl, rfl, rfl⟩
        · exact Or.inl rfl
  | advance ms =>
      simp only [step, advance, List.mem_map] at hw
      rcases hw with ⟨v, hv, rfl⟩
      refine Or.inr ⟨v, hv, ?_⟩
      unfold SleepingWorker.advance
      split
      · exact ⟨rfl, rfl, rfl⟩
      · split <;> exact ⟨rfl, rfl, rfl⟩
  | shutdown => exact absurd hw List.not_mem_nil

/-- Who is there after a run was let in during the run, or earlier. -/
theorem spawned_of_mem_run (earlier : List Event) {events : List Event}
    (hearlier : ∀ v ∈ t.scheduler.workers, .spawn v.name v.delay v.fails ∈ earlier) :
    ∀ w ∈ (t.run events).scheduler.workers, .spawn w.name w.delay w.fails ∈ earlier ++ events := by
  induction events generalizing t earlier with
  | nil =>
      rw [List.append_nil]
      exact hearlier
  | cons e events ih =>
      have hstep : ∀ v ∈ (t.step e).scheduler.workers,
          .spawn v.name v.delay v.fails ∈ earlier ++ [e] := by
        intro v hv
        rw [List.mem_append, List.mem_singleton]
        rcases spawned_of_mem_step hv with rfl | ⟨u, hu, hname, hdelay, hfails⟩
        · exact Or.inr rfl
        · rw [← hname, ← hdelay, ← hfails]
          exact Or.inl (hearlier u hu)
      have hrun := ih _ hstep
      rw [List.append_assoc, List.singleton_append] at hrun
      exact hrun

/-- Who finishes is there, and does not fail. -/
theorem exists_of_mem_advance {ms : Nat} {name : String} (hname : name ∈ (t.advance ms).1) :
    ∃ w ∈ t.scheduler.workers, w.name = name ∧ w.fails = false := by
  simp only [advance, List.mem_map, List.mem_mergeSort, List.mem_filter, Bool.and_eq_true,
    Bool.not_eq_true'] at hname
  rcases hname with ⟨w, ⟨hw, _, hfails⟩, rfl⟩
  exact ⟨w, hw, rfl, hfails⟩

/-- A scheduler answers by the book of those who were accepted since the last shutdown. Each
    of them holds a slot, sleeps until it is due and then ends as it was to end. A worker is
    let in exactly if there are fewer than there are slots, and one that is refused leaves
    everything as it was. When time moves on, those finish whose sleep is over by then. A
    shutdown reports each of those who have failed before it by its slot, in the order in which
    they were let in, and it leaves a scheduler that is as good as new, so that another shutdown
    has nothing to report. Whoever is there after a shutdown, or finishes then, was let in after
    it. -/
theorem slots_follow_admissions (capacity : Nat) (events : List Event) :
    let t := ({ scheduler := { capacity } } : TimedScheduler).run events
    let b := Admissions.after capacity events
    List.Forall₂ (Admission.Fits b.now) b.held t.scheduler.workers ∧
    (∀ w, t.spawn w =
      if b.held.length < capacity then
        (.ok (), { t with scheduler.workers := t.scheduler.workers ++ [w] })
      else (.error (.schedulerFull capacity), t)) ∧
    (∀ ms, (t.advance ms).1.Perm (b.finishing ms)) ∧
    (∀ slot, slot ∈ b.failed ↔ ∃ a, b.held[slot]? = some a ∧ a.failedBy b.now = true) ∧
    b.failed.Pairwise (· < ·) ∧
    CoordinationError.Reports (b.failed.map .join) t.shutdown.1 ∧
    t.shutdown.2.2 = { scheduler := { capacity }, now := b.now } ∧
    t.shutdown.2.2.shutdown = (.ok (), [], t.shutdown.2.2) ∧
    ∀ before after, events = before ++ .shutdown :: after →
      (∀ w ∈ t.scheduler.workers, .spawn w.name w.delay w.fails ∈ after) ∧
      ∀ ms, ∀ name ∈ (t.advance ms).1, ∃ delay, .spawn name delay false ∈ after := by
  intro t b
  have h : b.Fits capacity t := fits_after capacity events
  refine ⟨h.workers, fun w => ?_, advance_perm h, fun _ => mem_slotsOf, slotsOf_ascending,
    shutdown_reports h, shutdown_eq h, rfl, ?_⟩
  · split
    · exact spawn_of_lt h ‹_› w
    · exact spawn_of_full h (Nat.le_of_not_lt ‹_›) w
  · intro before after hevents
    have hspawned : ∀ w ∈ t.scheduler.workers, .spawn w.name w.delay w.fails ∈ after := by
      intro w hw
      simp only [t, hevents, run, List.foldl_append, List.foldl_cons] at hw
      -- Nobody is there right after the shutdown.
      exact spawned_of_mem_run [] (fun v hv => absurd hv List.not_mem_nil) w hw
    refine ⟨hspawned, fun ms name hname => ?_⟩
    rcases exists_of_mem_advance hname with ⟨w, hw, rfl, hfails⟩
    have hmem := hspawned w hw
    rw [hfails] at hmem
    exact ⟨w.delay, hmem⟩

/-- A worker that has failed keeps its slot, so the third one is refused. -/
example :
    let b := Admissions.after 2
      [.spawn "a" 9 false, .spawn "b" 3 true, .advance 5, .spawn "c" 0 false]
    b = { now := 5, held := [⟨"a", 9, false, 0⟩, ⟨"b", 3, true, 0⟩] } ∧ b.failed = [1] := by
  decide

end TimedScheduler

end OutboxCluster
