import OutboxCluster.Proofs.Attempt
import OutboxCluster.Proofs.Outbox
import OutboxCluster.Worker.Resume

/-!
# Turns of a Worker

What a worker may have in hand while it waits, and that every turn keeps to it.

A batch is found for an agent and a shard, and it may live long: through failures,
rests, pulses and renewals. What makes it safe to hand it on is that the snapshot
still says the same agent and the same shard, and that the lease is not over. Three
places look at that, and between them only the renewal touches the link; it changes
neither id nor shard. `Worker.Waits` states what is known at each point where a
worker waits, and `resume_settles` that a turn leads from one such point to
another.

The turn of a worker is described from its start. `Follows` says what has stayed as
it was since then, and `Settles` adds that the worker has come to a point to wait
at. Each part of a turn has one law, which leads from `Follows` to `Follows` or to
`Settles`.

While a worker waits for the session of a renewal it does not look at the end of
its lease, so that may pass. How long the session may take is a parameter, `bound`.

## Main definitions

* `Batch.InRange`, `Batch.Found`: What is true of a batch for good.
* `Entry.Lawful`, `Journal.Lawful`: A sink is given a batch, and events are deleted,
  under current ownership.
* `Worker.Waits`: What is known while a worker waits.
* `Scene.Follows`, `Scene.Settles`: During and after a turn.

## Theorems

* `wake_cases`: What a worker does that wakes up.
* `resume_settles`: A turn leads from one point to wait at to another.
-/

namespace OutboxCluster

namespace Batch

/-- The hashes of the events lie in the range of the shard, if there is one. -/
def InRange (b : Batch) : Prop :=
  ∀ a, b.assignment = some a → ∀ e ∈ b.events, a.hashRange.1 ≤ e.hash ∧ e.hash ≤ a.hashRange.2

/-- The worker has found the events in the outbox, for the agent and the shard of
    the batch. -/
def Found (b : Batch) (j : Journal) (node worker : String) : Prop :=
  ∃ time snapshot, .searched ⟨node, worker, time⟩ snapshot b.assignment (some b.events) ∈ j ∧
    snapshot.agentId = b.agentId ∧ snapshot.assignment = b.assignment

/-- A batch as it comes from the outbox, however often it has failed since. -/
structure Polled (b : Batch) (j : Journal) (node worker : String) : Prop where
  in_range : b.InRange
  found : b.Found j node worker

theorem Polled.mono {b : Batch} {j j' : Journal} {node worker : String}
    (h : b.Polled j node worker) (hj : j <:+ j') : b.Polled j' node worker := by
  rcases h.found with ⟨time, snapshot, hmem, hagent⟩
  exact ⟨h.in_range, time, snapshot, hj.subset hmem, hagent⟩

theorem Polled.failed {b : Batch} {j : Journal} {node worker : String}
    (h : b.Polled j node worker) : b.failed.Polled j node worker :=
  ⟨h.in_range, h.found⟩

end Batch

/-- Agent and shard of a batch are those that are known now. -/
def Snapshot.Bears (s : Snapshot) (b : Batch) : Prop :=
  s.agentId = b.agentId ∧ s.assignment = b.assignment

/-- A sink is given a batch, and events of a batch are deleted, only by an agent
    that may process, for which the batch was found, and within its shard. -/
def Entry.Lawful (earlier : Journal) : Entry → Prop
  | .began who snapshot batch | .deleting who snapshot batch =>
    snapshot.canProcess who.time = true ∧ snapshot.Bears batch ∧
      batch.Polled earlier who.node who.worker
  | _ => True

/-- Every entry is lawful after those before it. -/
def Journal.Lawful : Journal → Prop
  | [] => True
  | e :: earlier => e.Lawful earlier ∧ Lawful earlier

theorem Journal.lawful_addNotices {j : Journal} (h : j.Lawful) (ns : List Notice) :
    (j.addNotices ns).Lawful := by
  unfold addNotices
  induction ns generalizing j with
  | nil => exact h
  | cons n ns ih =>
      rw [List.map_cons, List.reverse_cons, List.append_assoc]
      exact ih ⟨trivial, h⟩

/-- A batch is in hand for the agent and the shard that are known now, and no other
    one is kept. The parts of a worker are arguments of their own, so that a change of
    any other part needs no proof. -/
structure Handover.Held (h : Handover) (retained : Option Batch) (snapshot : Snapshot)
    (node worker : String) (j : Journal) : Prop where
  alone : retained = none
  bears : snapshot.Bears h.batch
  agent : h.cycle.agentId = snapshot.agentId
  shard : h.cycle.assignment = snapshot.assignment
  polled : h.batch.Polled j node worker

namespace Handover.Held

variable {h : Handover} {retained : Option Batch} {snapshot : Snapshot} {node worker : String}
  {j : Journal}

theorem mono (hheld : h.Held retained snapshot node worker j) {j' : Journal} (hj : j <:+ j') :
    h.Held retained snapshot node worker j' :=
  ⟨hheld.alone, hheld.bears, hheld.agent, hheld.shard, hheld.polled.mono hj⟩

/-- The sink has been given the batch. -/
theorem asked (hheld : h.Held retained snapshot node worker j) (ongoing : Option (Nat × Ending)) :
    Handover.Held { h with ongoing } retained snapshot node worker j :=
  ⟨hheld.alone, hheld.bears, hheld.agent, hheld.shard, hheld.polled⟩

end Handover.Held

/-- What is known while a worker waits, where no session of a renewal takes longer
    than `bound` to open. -/
def Worker.Waits (w : Worker) (node : String) (j : Journal) (now bound : Nat) : Prop :=
  match w.wait with
  | .polling _ cycle =>
    w.retained = none ∧ cycle.agentId = w.link.snapshot.agentId ∧
      cycle.assignment = w.link.snapshot.assignment
  | .applying h =>
    h.Held w.retained w.link.snapshot node w.name j ∧ w.link.snapshot.state = .running ∧
      ∃ deadline, w.link.snapshot.leaseDeadline = some deadline ∧ now ≤ deadline ∧
        (h.ongoing = none → now < deadline)
  | .renewing due started _ h =>
    h.Held w.retained w.link.snapshot node w.name j ∧ w.link.snapshot.state = .running ∧
      ∃ deadline, w.link.snapshot.leaseDeadline = some deadline ∧ started ≤ deadline ∧
        now ≤ due ∧ due ≤ started + bound
  | .deleting _ h | .deleted _ _ h => h.Held w.retained w.link.snapshot node w.name j
  | _ => True

/-- What is known of a worker between its turns. -/
structure Worker.Sound (w : Worker) (node : String) (j : Journal) (now bound : Nat) : Prop where
  kept : ∀ b, w.retained = some b → b.Polled j node w.name
  waits : w.Waits node j now bound

namespace Scene

/-- What has stayed as it was since the start of a turn, and what is known of the
    batch that is kept. The parts of a scene are arguments of their own, so that a
    change of any other part needs no proof. -/
structure Kept (s₀ : Scene) (now : Nat) (node worker : String) (j : Journal)
    (retained : Option Batch) : Prop where
  now_eq : now = s₀.now
  node_eq : node = s₀.host.name
  worker_eq : worker = s₀.worker.name
  suffix : s₀.journal <:+ j
  lawful : j.Lawful
  polled : ∀ b, retained = some b → b.Polled j node worker

/-- A scene in the middle of the turn that has begun with `s₀`. -/
def Follows (s₀ s : Scene) : Prop :=
  Kept s₀ s.now s.host.name s.worker.name s.journal s.worker.retained

/-- The turn that has begun with `s₀` has come to a point to wait at. -/
structure Settles (bound : Nat) (s₀ s : Scene) : Prop where
  follows : s₀.Follows s
  waits : s.worker.Waits s.host.name s.journal s.now bound

/-- Who wakes up comes to the head of its loop, with the signal it has seen by then, or leaves. -/
theorem wake_cases (s : Scene) (due : Nat) :
    s.wake due = s.loop ∨ s.wake due = loop { s with worker.seen := s.signal.version } ∨
      s.wake due = s.depart none := by
  unfold wake
  split
  · exact Or.inl rfl
  · split
    · exact Or.inr (Or.inl rfl)
    · split
      · exact Or.inr (Or.inr rfl)
      · exact Or.inl rfl

/-- Whose link breaks down in a pulse goes no further, and whoever else pulses sets the next
    pulse and goes on. -/
theorem pulse_cases (s : Scene) (started : Nat) (wall : Int) :
    let act := fun l : Link => l.pulse { started, wall, opened := s.now }
    let pulsed := (s.enter (.pulsed s.stamp)).attempt act
    (s.breaksDown act = true ∧ s.pulse started wall = pulsed.await (.over .overflown)) ∨
    (s.breaksDown act = false ∧ s.pulse started wall = cycleIfDue { pulsed with
      worker.nextPulse := pulsed.now + pulsed.worker.settings.pulseInterval }) := by
  intro act pulsed
  cases hbroken : s.breaksDown act with
  | true => exact Or.inl ⟨rfl, if_pos hbroken⟩
  | false => exact Or.inr ⟨rfl, if_neg (Bool.not_eq_true _ ▸ hbroken)⟩

section Parts

variable {bound : Nat} {s₀ s : Scene}

namespace Follows

theorem enter (hf : s₀.Follows s) {e : Entry} (he : e.Lawful s.journal) :
    s₀.Follows (s.enter e) where
  now_eq := hf.now_eq
  node_eq := hf.node_eq
  worker_eq := hf.worker_eq
  suffix := hf.suffix.trans (List.suffix_cons e s.journal)
  lawful := ⟨he, hf.lawful⟩
  polled := fun b hb => (hf.polled b hb).mono (List.suffix_cons e s.journal)

theorem note (hf : s₀.Follows s) (n : Notice) : s₀.Follows (s.note n) :=
  hf.enter (e := .notice n) trivial

theorem addNotices (hf : s₀.Follows s) (ns : List Notice) :
    s₀.Follows { s with journal := s.journal.addNotices ns } where
  now_eq := hf.now_eq
  node_eq := hf.node_eq
  worker_eq := hf.worker_eq
  suffix := hf.suffix.trans (List.suffix_append _ _)
  lawful := Journal.lawful_addNotices hf.lawful ns
  polled := fun b hb => (hf.polled b hb).mono (List.suffix_append _ _)

/-- An attempt of the link changes its name no more than a session does. -/
theorem attempt (hf : s₀.Follows s) (act : Link → Access → AgentTable → Attempt)
    (hname : (act s.worker.link s.host.access s.agents).link.name = s.worker.link.name) :
    s₀.Follows (s.attempt act) := by
  have hafter := hf.addNotices (act s.worker.link s.host.access s.agents).notices
  refine ⟨hafter.now_eq, hafter.node_eq, ?_, hafter.suffix, hafter.lawful, ?_⟩
  · rw [← hafter.worker_eq]
    exact hname
  · intro b hb
    have hpolled := hafter.polled b hb
    rw [show (s.attempt act).worker.name = s.worker.name from hname]
    exact hpolled

theorem rest (hf : s₀.Follows s) : Settles bound s₀ s.rest := ⟨hf, trivial⟩

theorem endCycle (hf : s₀.Follows s) (wait : Nat) : Settles bound s₀ (s.endCycle wait) :=
  rest (hf.enter (e := .cycleEnded s.stamp wait) trivial)

theorem endIdle (hf : s₀.Follows s) (wait : Nat) : Settles bound s₀ (s.endIdle wait) :=
  endCycle (s := s.becomes .idle) hf wait

theorem finish (hf : s₀.Follows s) (halt : Option Halt) : Settles bound s₀ (s.finish halt) := by
  cases halt with
  | none => exact ⟨hf.note _, trivial⟩
  | some h => exact ⟨hf, trivial⟩

theorem depart (hf : s₀.Follows s) (halt : Option Halt) : Settles bound s₀ (s.depart halt) := by
  unfold Scene.depart
  by_cases hself : s.worker.link.selfId.isNone = true
  · rw [if_pos hself]
    exact hf.finish halt
  · rw [if_neg hself]
    exact ⟨hf, trivial⟩

theorem loseOwnership (hf : s₀.Follows s) (h : Handover) :
    Settles bound s₀ (s.loseOwnership h) := by
  have hnoted := hf.note (.ownershipLost h.batch.events.length)
  unfold Scene.loseOwnership
  refine endIdle ?_ _
  exact hnoted

/-- A batch that has failed is as it was found. -/
theorem failBatch (hf : s₀.Follows s) {h : Handover}
    (hpolled : h.batch.Polled s.journal s.host.name s.worker.name) (error : CoordinationError) :
    Settles bound s₀ (s.failBatch h error) := by
  unfold Scene.failBatch
  dsimp only
  -- A batch that has used up its attempts is not kept, and any other one is as it was found.
  by_cases hover : s.worker.settings.retryPolicy.isExhausted h.batch.failed.attempts = true
  · have hnoted := hf.note (.batchHalted h.batch.failed.attempts (h.batch.failed.ids.head?))
    rw [if_pos hover]
    refine depart ?_ _
    exact hnoted
  · rw [if_neg hover]
    refine endCycle ?_ _
    have hnoted := hf.note (.batchRetried h.batch.failed.attempts h.batch.failed.events.length)
    refine ⟨hnoted.now_eq, hnoted.node_eq, hnoted.worker_eq, hnoted.suffix, hnoted.lawful, ?_⟩
    intro b hb
    rw [← Option.some.inj hb]
    exact hpolled.failed.mono (List.suffix_cons _ _)

theorem timeOut (hf : s₀.Follows s) {h : Handover}
    (hpolled : h.batch.Polled s.journal s.host.name s.worker.name) :
    Settles bound s₀ (s.timeOut h) :=
  hf.failBatch hpolled _

/-- The sink keeps a batch only if the agent may process. -/
theorem keepApplying (hf : s₀.Follows s) {h : Handover}
    (hheld : h.Held s.worker.retained s.worker.link.snapshot s.host.name s.worker.name s.journal) :
    Settles bound s₀ (s.keepApplying h) := by
  unfold Scene.keepApplying
  by_cases hcan : s.canProcess = true
  · rw [if_pos hcan]
    rcases Snapshot.canProcess_iff.mp hcan with ⟨hstate, deadline, hdeadline, hlt⟩
    exact ⟨hf, hheld, hstate, deadline, hdeadline, Nat.le_of_lt hlt, fun _ => hlt⟩
  · rw [if_neg hcan]
    exact hf.loseOwnership h

theorem handOver (hf : s₀.Follows s) {cycle : Cycle} {batch : Batch}
    (halone : s.worker.retained = none) (hbears : s.worker.link.snapshot.Bears batch)
    (hagent : cycle.agentId = s.worker.link.snapshot.agentId)
    (hshard : cycle.assignment = s.worker.link.snapshot.assignment)
    (hpolled : batch.Polled s.journal s.host.name s.worker.name) :
    Settles bound s₀ (s.handOver cycle batch) :=
  keepApplying (s := s.becomes .applying) hf ⟨halone, hbears, hagent, hshard, hpolled⟩

/-- A kept batch is handed on again if it is still that of agent and shard. -/
theorem nextBatch (hf : s₀.Follows s) {cycle : Cycle}
    (hagent : cycle.agentId = s.worker.link.snapshot.agentId)
    (hshard : cycle.assignment = s.worker.link.snapshot.assignment)
    (hbears : ∀ b, s.worker.retained = some b → s.worker.link.snapshot.Bears b) :
    Settles bound s₀ (s.nextBatch cycle) := by
  unfold Scene.nextBatch
  cases hretained : s.worker.retained with
  | none => exact ⟨hf, hretained, hagent, hshard⟩
  | some batch =>
      have hpolled := hf.polled batch hretained
      refine handOver ?_ rfl (hbears batch hretained) hagent hshard hpolled
      exact ⟨hf.now_eq, hf.node_eq, hf.worker_eq, hf.suffix, hf.lawful, fun _ hb => nomatch hb⟩

/-- A kept batch is dropped unless it is that of agent and shard. -/
theorem dropForeign (hf : s₀.Follows s) : s₀.Follows s.dropForeign ∧
    s.dropForeign.worker.link = s.worker.link ∧
    ∀ b, s.dropForeign.worker.retained = some b → s.worker.link.snapshot.Bears b := by
  unfold Scene.dropForeign
  cases hretained : s.worker.retained with
  | none => exact ⟨hf, rfl, fun b hb => nomatch hretained.symm.trans hb⟩
  | some batch =>
      dsimp only
      by_cases hown : s.canProcess = true ∧ s.worker.link.snapshot.agentId = batch.agentId ∧
          s.worker.link.snapshot.assignment = batch.assignment
      · rw [if_pos hown]
        refine ⟨hf, rfl, fun b hb => ?_⟩
        rw [← Option.some.inj (hretained.symm.trans hb)]
        exact hown.2
      · have hnoted := hf.note (.ownershipChanged batch.events.length batch.attempts)
        rw [if_neg hown]
        refine ⟨⟨hnoted.now_eq, hnoted.node_eq, hnoted.worker_eq, hnoted.suffix, hnoted.lawful, ?_⟩,
          rfl, ?_⟩ <;> exact fun _ hb => nomatch hb

theorem beginCycle (hf : s₀.Follows s) : Settles bound s₀ s.beginCycle := by
  -- From here on, a batch that is kept is that of agent and shard.
  rcases dropForeign (hf.enter (e := .cycleBegan s.stamp) trivial)
    with ⟨hdropped, hlink, hbears⟩
  unfold Scene.beginCycle
  dsimp only
  by_cases hcan : ((s.enter (.cycleBegan s.stamp)).dropForeign).canProcess = true
  · rw [if_pos hcan]
    refine hdropped.nextBatch rfl rfl (fun b hb => ?_)
    rw [hlink]
    exact hbears b hb
  · rw [if_neg hcan]
    exact hdropped.endIdle _

theorem cycleIfDue (hf : s₀.Follows s) : Settles bound s₀ s.cycleIfDue := by
  unfold Scene.cycleIfDue
  by_cases hdue : s.worker.nextCycle ≤ s.now
  · rw [if_pos hdue]
    exact hf.beginCycle
  · rw [if_neg hdue]
    exact hf.rest

theorem loop (hf : s₀.Follows s) : Settles bound s₀ s.loop := by
  unfold Scene.loop
  by_cases hraised : s.signal.raised = true
  · rw [if_pos hraised]
    exact hf.depart none
  · rw [if_neg hraised]
    by_cases hpulse : s.worker.nextPulse ≤ s.now
    · rw [if_pos hpulse]
      exact ⟨hf, trivial⟩
    · rw [if_neg hpulse]
      exact hf.cycleIfDue

theorem launch (hf : s₀.Follows s) : Settles bound s₀ s.launch := by
  have hnoted := hf.note
    (.processorStarted s.worker.settings.pollingInterval s.worker.settings.pulseInterval)
  unfold Scene.launch
  refine loop ?_
  exact hnoted

theorem pulse (hf : s₀.Follows s) (started : Nat) (wall : Int) :
    Settles bound s₀ (s.pulse started wall) := by
  have hentered := hf.enter (e := .pulsed s.stamp) trivial
  have hattempted := hentered.attempt (fun l => l.pulse { started, wall, opened := s.now })
    (Link.name_pulse _ _ _ _)
  rcases s.pulse_cases started wall with ⟨_, heq⟩ | ⟨_, heq⟩
  · rw [heq]
    exact ⟨hattempted, trivial⟩
  · rw [heq]
    refine cycleIfDue ?_
    exact hattempted

theorem leave (hf : s₀.Follows s) (halt : Option Halt) : Settles bound s₀ (s.leave halt) :=
  finish (hf.attempt _ (Link.name_leave _ _ _)) halt

/-- A renewal leaves agent and shard as they are, so the batch in hand is still
    theirs. -/
theorem renew (hf : s₀.Follows s) {h : Handover}
    (hheld : h.Held s.worker.retained s.worker.link.snapshot s.host.name s.worker.name s.journal)
    (started : Nat) (wall : Int) : Settles bound s₀ (s.renew started wall h) := by
  have hentered := hf.enter (e := .renewed s.stamp) trivial
  unfold Scene.renew
  dsimp only
  -- The cycle and the batch name agent and shard as they were, and they still are.
  rcases Link.renew_frame s.worker.link { started, wall, opened := s.now } s.host.access s.agents
    with ⟨hname, hagent, hshard⟩
  have hattempted := hentered.attempt (fun l => l.renew { started, wall, opened := s.now }) hname
  refine keepApplying ?_ ⟨hheld.alone, ⟨?_, ?_⟩, ?_, ?_, ?_⟩
  · exact hattempted
  · exact hagent.trans hheld.bears.1
  · exact hshard.trans hheld.bears.2
  · exact hheld.agent.trans hagent.symm
  · exact hheld.shard.trans hshard.symm
  · -- The journal has only grown, so the search that found the batch is still in it.
    have hpolled : h.batch.Polled ((s.enter (.renewed s.stamp)).attempt
        fun l => l.renew { started, wall, opened := s.now }).journal s.host.name
        s.worker.name :=
      (hheld.polled.mono (List.suffix_cons _ _)).mono (List.suffix_append _ _)
    rw [Worker.name, ← hname] at hpolled
    exact hpolled

/-- The outcome of a search. What it finds lies within the shard of the cycle. -/
theorem poll (hf : s₀.Follows s) {cycle : Cycle} (halone : s.worker.retained = none)
    (hagent : cycle.agentId = s.worker.link.snapshot.agentId)
    (hshard : cycle.assignment = s.worker.link.snapshot.assignment) :
    Settles bound s₀ (s.poll cycle) := by
  unfold Scene.poll
  dsimp only [Scene.strike]
  have hfailed := (hf.enter (e := .searched s.stamp s.worker.link.snapshot cycle.assignment none)
    trivial).note .pollFailed
  cases (s.host.access.faults.strike .find).1 with
  | some error =>
      refine endIdle ?_ _
      exact hfailed
  | none =>
      dsimp only
      cases hsearch : s.outbox.search cycle.assignment s.worker.settings.batchSize with
      | error e =>
          refine endIdle ?_ _
          exact hfailed
      | ok events =>
          have hentered := hf.enter (e := .searched s.stamp s.worker.link.snapshot
            cycle.assignment (some events)) trivial
          -- The search was bounded by the shard of the cycle, which is that of the link.
          have hrange : ∀ a, cycle.assignment = some a →
              ∀ e ∈ events, a.hashRange.1 ≤ e.hash ∧ e.hash ≤ a.hashRange.2 := by
            intro a ha e he
            rw [ha] at hsearch
            exact Outbox.search_mem_range hsearch he
          dsimp only
          by_cases hempty : events.isEmpty = true
          · rw [if_pos hempty]
            refine endIdle ?_ _
            exact hentered
          · rw [if_neg hempty]
            refine handOver ?_ halone ⟨hagent.symm, hshard.symm⟩ hagent hshard
              ⟨hrange, s.now, s.worker.link.snapshot, ?_, hagent.symm, hshard.symm⟩
            · exact hentered
            · exact List.mem_cons_self

/-- The sink is given the batch. -/
theorem askSink (hf : s₀.Follows s) {h : Handover}
    (hheld : h.Held s.worker.retained s.worker.link.snapshot s.host.name s.worker.name s.journal)
    (hcan : s.canProcess = true) : s₀.Follows (s.askSink h).1 ∧
      (s.askSink h).1.worker = s.worker ∧ (s.askSink h).1.host.name = s.host.name ∧
      (s.askSink h).1.now = s.now ∧ s.journal <:+ (s.askSink h).1.journal ∧
      (s.askSink h).1.host.access = s.host.access := by
  have hentered := hf.enter (e := .began s.stamp s.worker.link.snapshot h.batch)
    ⟨hcan, hheld.bears, hheld.polled⟩
  unfold Scene.askSink
  dsimp only
  rcases s.host.sink.next with ⟨behaviour, sink⟩
  refine ⟨hentered.addNotices _, rfl, rfl, rfl, ?_, rfl⟩
  exact (List.suffix_cons _ _).trans (List.suffix_append _ _)

/-- The sink is done. Events are deleted only if the agent may still process. -/
theorem sinkDone (hf : s₀.Follows s) {h : Handover}
    (hheld : h.Held s.worker.retained s.worker.link.snapshot s.host.name s.worker.name s.journal)
    (ending : Ending) : Settles bound s₀ (s.sinkDone h ending) := by
  have hentered := hf.enter (e := .ended s.stamp h.batch ending) trivial
  have hheld' := hheld.mono (List.suffix_cons (.ended s.stamp h.batch ending) s.journal)
  unfold Scene.sinkDone
  cases ending with
  | broken => exact ⟨hentered, trivial⟩
  | refused message => exact hentered.failBatch hheld'.polled _
  | accepted =>
      dsimp only
      -- The last look at the lease before the events go.
      by_cases hcan : (s.enter (.ended s.stamp h.batch .accepted)).canProcess = true
      · rw [if_pos hcan]
        refine ⟨?_, hheld'.mono (List.suffix_cons _ _)⟩
        exact hentered.enter ⟨hcan, hheld'.bears, hheld'.polled⟩
      · rw [if_neg hcan]
        exact hentered.loseOwnership h

/-- Whichever branch is taken up, and in whatever order they are looked at. -/
theorem race (hf : s₀.Follows s) {h : Handover}
    (hheld : h.Held s.worker.retained s.worker.link.snapshot s.host.name s.worker.name s.journal)
    (hstate : s.worker.link.snapshot.state = .running) {deadline : Nat}
    (hdeadline : s.worker.link.snapshot.leaseDeadline = some deadline) (hle : s.now ≤ deadline)
    (hfresh : h.ongoing = none → s.now < deadline)
    (hslow : s.host.access.faults.delay .begin ≤ bound) (branches : List Branch) :
    Settles bound s₀ (s.race h branches) := by
  -- The induction is on the branches that are left; asking the sink changes the scene.
  induction branches generalizing s h with
  | nil => exact ⟨hf, hheld, hstate, deadline, hdeadline, hle, hfresh⟩
  | cons branch rest ih =>
      cases branch with
      | sink =>
          unfold Scene.race
          cases hongoing : h.ongoing with
          | some ongoing =>
              dsimp only
              by_cases hdue : ongoing.1 ≤ s.now
              · rw [if_pos hdue]
                exact hf.sinkDone (hheld.asked _) ongoing.2
              · rw [if_neg hdue]
                exact ih hf (hheld.asked _) hstate hdeadline hle (fun hnone => nomatch hnone) hslow
          | none =>
              -- The sink has not been asked yet, so the lease was looked at just now.
              have hcan : s.canProcess = true := Snapshot.canProcess_iff.mpr
                ⟨hstate, deadline, hdeadline, hfresh hongoing⟩
              rcases hf.askSink hheld hcan with ⟨hf', hworker, hnode, hnow, hsuffix, hdelay⟩
              generalize s.askSink h = asked at hf' hworker hnode hnow hsuffix hdelay ⊢
              rcases asked with ⟨s', due, ending⟩
              dsimp only at hf' hworker hnode hnow hsuffix hdelay ⊢
              have hheld' : Handover.Held { h with ongoing := some (due, ending) }
                  s'.worker.retained s'.worker.link.snapshot s'.host.name s'.worker.name
                  s'.journal := by
                rw [hworker, hnode]
                exact (hheld.mono hsuffix).asked _
              by_cases hdue : due ≤ s'.now
              · rw [if_pos hdue]
                exact hf'.sinkDone hheld' ending
              · rw [if_neg hdue]
                refine ih hf' hheld' ?_ ?_ ?_ (fun hnone => nomatch hnone) ?_
                · rw [hworker]
                  exact hstate
                · rw [hworker]
                  exact hdeadline
                · rw [hnow]
                  exact hle
                · rw [hdelay]
                  exact hslow
      | renewal =>
          unfold Scene.race
          by_cases hdue : s.worker.nextPulse ≤ s.now
          · rw [if_pos hdue]
            refine ⟨hf, hheld, hstate, deadline, hdeadline, hle, ?_⟩
            -- The session is opened now, or after as long as it takes.
            have hopened : ∀ due,
                due = (if s.worker.link.selfId.isNone then s.now else s.after .begin) →
                s.now ≤ due ∧ due ≤ s.now + bound := by
              rintro due rfl
              unfold Scene.after
              split <;> omega
            exact hopened _ rfl
          · rw [if_neg hdue]
            exact ih hf hheld hstate hdeadline hle hfresh hslow
      | deadline =>
          unfold Scene.race
          split
          · exact hf.loseOwnership h
          · exact ih hf hheld hstate hdeadline hle hfresh hslow
      | timeout =>
          unfold Scene.race
          split
          · exact hf.timeOut hheld.polled
          · exact ih hf hheld hstate hdeadline hle hfresh hslow

/-- A batch is done, and the next one is for the same agent and shard. -/
theorem completeBatch (hf : s₀.Follows s) {h : Handover}
    (hheld : h.Held s.worker.retained s.worker.link.snapshot s.host.name s.worker.name s.journal)
    (count : Nat) : Settles bound s₀ (s.completeBatch h count) := by
  unfold Scene.completeBatch
  dsimp only
  -- Whether fewer events were deleted is reported and makes no difference.
  generalize hreport : (if count < h.batch.events.length then _ else _ : Scene) = s'
  have hafter : s₀.Follows s' ∧ s'.worker.link = s.worker.link ∧
      s'.worker.retained = s.worker.retained := by
    rw [← hreport]
    split
    · exact ⟨hf.note _, rfl, rfl⟩
    · exact ⟨hf, rfl, rfl⟩
  rcases hafter with ⟨hf', hlink, hretained⟩
  split
  · exact hf'.endIdle _
  · split
    · exact hf'.endIdle _
    · refine hf'.nextBatch ?_ ?_ (fun b hb => ?_)
      · rw [hlink]
        exact hheld.agent
      · rw [hlink]
        exact hheld.shard
      · exact nomatch (hheld.alone.symm.trans hretained.symm).trans hb

theorem delete (hf : s₀.Follows s) {h : Handover}
    (hheld : h.Held s.worker.retained s.worker.link.snapshot s.host.name s.worker.name s.journal)
    (due : Nat) : Settles bound s₀ (s.delete h due) := by
  unfold Scene.delete
  by_cases hdue : due ≤ s.now
  · rw [if_pos hdue]
    dsimp only [Scene.strike]
    cases (s.host.access.faults.strike .deleteEvents).1 with
    | some error =>
        refine failBatch ?_ ?_ _
        · exact hf
        · exact hheld.polled
    | none =>
        have hentered := hf.enter
          (e := .deleted s.stamp h.batch.ids (s.outbox.count h.batch.ids)) trivial
        refine ⟨?_, ?_⟩
        · exact hentered
        · exact hheld.mono (List.suffix_cons _ _)
  · rw [if_neg hdue]
    exact hf.timeOut hheld.polled

theorem confirm (hf : s₀.Follows s) {h : Handover}
    (hheld : h.Held s.worker.retained s.worker.link.snapshot s.host.name s.worker.name s.journal)
    (due count : Nat) : Settles bound s₀ (s.confirm h due count) := by
  unfold Scene.confirm
  by_cases hdue : due ≤ s.now
  · rw [if_pos hdue]
    exact hf.completeBatch hheld count
  · rw [if_neg hdue]
    exact hf.timeOut hheld.polled

theorem wake (hf : s₀.Follows s) (due : Nat) : Settles bound s₀ (s.wake due) := by
  rcases s.wake_cases due with heq | heq | heq <;> rw [heq]
  · exact hf.loop
  · refine loop ?_
    exact hf
  · exact hf.depart none

end Follows

end Parts

/-- A turn leads from one point to wait at to another: the journal stays lawful, and
    what is known of the worker while it waits is known again. -/
theorem resume_settles {bound : Nat} {s : Scene} (hlawful : s.journal.Lawful)
    (hsound : s.worker.Sound s.host.name s.journal s.now bound)
    (hslow : s.host.access.faults.delay .begin ≤ bound) : Settles bound s s.resume := by
  have hf : s.Follows s := ⟨rfl, rfl, rfl, List.suffix_refl _, hlawful, hsound.kept⟩
  have hwaits := hsound.waits
  unfold Worker.Waits at hwaits
  unfold Scene.resume
  cases hwait : s.worker.wait with
  | launched => exact hf.launch
  | pulsing due started wall => exact hf.pulse started wall
  | polling due cycle =>
      rw [hwait] at hwaits
      exact hf.poll hwaits.1 hwaits.2.1 hwaits.2.2
  | applying h =>
      -- Which branch comes first is open, so the law of the race is about any order.
      rw [hwait] at hwaits
      rcases hwaits with ⟨hheld, hstate, deadline, hdeadline, hle, hfresh⟩
      exact hf.race hheld hstate hdeadline hle hfresh hslow _
  | renewing due started wall h =>
      rw [hwait] at hwaits
      exact hf.renew hwaits.1 started wall
  | deleting due h =>
      rw [hwait] at hwaits
      exact hf.delete hwaits due
  | deleted due count h =>
      rw [hwait] at hwaits
      exact hf.confirm hwaits due count
  | resting wake => exact hf.wake wake
  | leaving due halt => exact hf.leave halt
  -- A worker that has not begun or has come to its end does nothing.
  | _ => exact ⟨hf, by rw [Worker.Waits, hwait]; exact trivial⟩

end Scene

end OutboxCluster
