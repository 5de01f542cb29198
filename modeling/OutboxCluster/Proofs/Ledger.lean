import OutboxCluster.Proofs.Attended

/-!
# Turns and the Ledger

What a turn does to the events of a cluster, told as a ledger: a batch that is accepted
goes on the account of its worker, the events of a batch that was accepted leave the
outbox, and nothing else happens to either side. As long as nothing fails the second
follows the first in the next turn of the worker, so a worker that waits for a deletion
is the only place where an event is on both sides.

An event is handed on twice only if two batches have it. So the other half of the ledger
is who may hand on what: a worker claims the batch in hand, and a kept one that it would
take up again. Where a claim can come from is listed in `Scene.Source`. The last of its
cases is one that only a dynamic agent can be in: it has kept a batch, has lost the
shard, and gets it back.

## Main definitions

* `Worker.Claims`: A batch that a worker may hand on.
* `Journal.accepted`, `Journal.tally`: What the sinks have accepted, and how much of one
  worker.
* `Scene.Source`: Where a claim comes from.
* `Scene.Drains`: What a turn does to the ledger.

## Theorems

* `Lands.drains`: Control makes no entry.
* `resume_drains`: What every turn does.
-/

namespace OutboxCluster

namespace Worker

/-- The batch that the worker has in hand, until its events are deleted. -/
def inHand? (w : Worker) : Option Batch :=
  match w.wait with
  | .applying h | .renewing _ _ _ h | .deleting _ h => some h.batch
  | _ => none

/-- The batch that was accepted and whose events are to be deleted. -/
def deleting? (w : Worker) : Option Batch :=
  match w.wait with
  | .deleting _ h => some h.batch
  | _ => none

/-- How many events have been accepted and are not counted yet. -/
def uncounted (w : Worker) : Nat :=
  match w.wait with
  | .deleting _ h | .deleted _ _ h => h.batch.events.length
  | _ => 0

/-- The worker has the batch in hand, or it has kept it and would take it up again. A
    configured agent that waits for its turn counts as one that would. -/
def Claims (w : Worker) (b : Batch) : Prop :=
  w.inHand? = some b ∨
    w.isOver = false ∧ w.retained = some b ∧ w.link.snapshot.Bears b ∧
      (w.link.configured = none → w.link.snapshot.state = .running)

instance (w : Worker) (b : Batch) : Decidable (w.Claims b) :=
  inferInstanceAs (Decidable (_ ∨ _ ∧ _ ∧ (_ ∧ _) ∧ (_ → _)))

theorem Claims.of_alone {w : Worker} {b : Batch} (h : w.Claims b) (halone : w.retained = none) :
    w.inHand? = some b := by
  rcases h with hhand | ⟨_, hretained, _⟩
  · exact hhand
  · exact nomatch halone.symm.trans hretained

/-- The sink has the batch, or is to be given it, and no other one is kept. -/
structure Holding (w : Worker) (b : Batch) : Prop where
  hand : w.inHand? = some b
  deleting : w.deleting? = none
  uncounted : w.uncounted = 0
  alone : w.retained = none

theorem holding_of_wait {w : Worker} {h : Handover} (halone : w.retained = none)
    (hwait : w.wait = .applying h ∨ ∃ due started wall, w.wait = .renewing due started wall h) :
    w.Holding h.batch := by
  rcases hwait with heq | ⟨due, started, wall, heq⟩ <;> refine ⟨?_, ?_, ?_, halone⟩
  · rw [inHand?, heq]
  · rw [deleting?, heq]
  · rw [uncounted, heq]
  · rw [inHand?, heq]
  · rw [deleting?, heq]
  · rw [uncounted, heq]

/-- The worker lives, and nothing that was accepted waits for anything. -/
structure Free (w : Worker) : Prop where
  lives : w.isOver = false
  deleting : w.deleting? = none
  uncounted : w.uncounted = 0

/-- Whether a worker is free can be told from what it waits for. -/
theorem Free.of_wait {w : Worker} {wait : Wait} (hwait : w.wait = wait)
    (hfree : ({ w with wait } : Worker).Free) : w.Free := by
  rw [← hwait] at hfree
  exact hfree

/-- Who has come to an end claims nothing. -/
theorem not_claims_of_over {w : Worker} {how : End} (h : w.wait = .over how) (b : Batch) :
    ¬ w.Claims b := by
  rintro (hhand | ⟨hnot, _⟩)
  · unfold inHand? at hhand
    rw [h] at hhand
    exact nomatch hhand
  · unfold isOver at hnot
    rw [h] at hnot
    exact nomatch hnot

end Worker

namespace Journal

/-- What the sinks have accepted, newest first, and from whom. -/
def accepted (j : Journal) : List (Stamp × Batch) :=
  j.filterMap fun
    | .ended who batch .accepted => some (who, batch)
    | _ => none

/-- The ids of the events that were accepted. -/
def acceptedIds (j : Journal) : List Int := j.accepted.flatMap (·.2.ids)

/-- How many events were accepted from a worker. -/
def tally (j : Journal) (worker : String × String) : Nat :=
  ((j.accepted.filter (·.1.post = worker)).flatMap (·.2.events)).length

theorem accepted_append (j j' : Journal) : (j ++ j').accepted = j.accepted ++ j'.accepted :=
  List.filterMap_append

theorem accepted_addNotices (j : Journal) (ns : List Notice) :
    (j.addNotices ns).accepted = j.accepted := by
  have hnone : Journal.accepted (ns.map Entry.notice).reverse = [] := by
    refine List.filterMap_eq_nil_iff.mpr fun e he => ?_
    rcases List.mem_map.mp (List.mem_reverse.mp he) with ⟨n, _, rfl⟩
    rfl
  rw [addNotices, accepted_append, hnone, List.nil_append]

end Journal

namespace Scene

/-- Control enters nothing that was accepted. -/
theorem Marks.accepted {who : Stamp} {j j' : Journal} (h : Marks who j j') :
    j'.accepted = j.accepted := by
  rcases h with ⟨es, rfl, hes⟩
  have hnone : Journal.accepted es = [] := by
    refine List.filterMap_eq_nil_iff.mpr fun e he => ?_
    have hmark := (hes e he).1
    cases e with
    | ended => exact nomatch hmark
    | _ => rfl
  rw [Journal.accepted_append, hnone, List.nil_append]

/-- Where a batch comes from that a worker claims after the turn that begins with `s`: it
    was claimed before, however often it has failed since, or it was found in the outbox,
    or a dynamic agent had kept it. -/
def Source (s : Scene) (b : Batch) : Prop :=
  (∃ b₀, s.worker.Claims b₀ ∧ b.events = b₀.events) ∨
    (∃ limit, s.outbox.search b.assignment limit = .ok b.events) ∨
    s.worker.link.configured = none ∧ s.worker.retained = some b

/-- What a turn does to the ledger. -/
inductive Drains (s s' : Scene) : Prop where
  /-- No batch is accepted and no event is deleted. -/
  | rests : s.worker.deleting? = none → s'.worker.deleting? = none → s'.outbox = s.outbox →
      s'.journal.accepted = s.journal.accepted →
      s'.worker.stats.eventsConsumed + s'.worker.uncounted =
        s.worker.stats.eventsConsumed + s.worker.uncounted →
      (∀ b, s'.worker.Claims b → s.Source b) → Drains s s'
  /-- The batch in hand is accepted, and its events are to be deleted next. -/
  | accepts {b : Batch} : s.worker.deleting? = none → s.worker.inHand? = some b →
      s'.worker.deleting? = some b → s'.outbox = s.outbox →
      s'.journal.accepted = (s.stamp, b) :: s.journal.accepted →
      s'.worker.stats.eventsConsumed + s'.worker.uncounted =
        s.worker.stats.eventsConsumed + s.worker.uncounted + b.events.length →
      (∀ b', s'.worker.Claims b' → b' = b) → Drains s s'
  /-- The events of the batch that was accepted are deleted. -/
  | deletes {b : Batch} : s.worker.deleting? = some b → s'.worker.deleting? = none →
      s'.outbox = s.outbox.delete b.ids → s'.journal.accepted = s.journal.accepted →
      s'.worker.stats.eventsConsumed + s'.worker.uncounted =
        s.worker.stats.eventsConsumed + s.worker.uncounted →
      (∀ b', ¬ s'.worker.Claims b') → Drains s s'

/-- In the turn that has begun with `s` nothing has been entered in the ledger yet, and the
    worker is as it was. -/
structure Blank (s s₁ : Scene) : Prop where
  now_eq : s₁.now = s.now
  name_eq : s₁.host.name = s.host.name
  worker_eq : s₁.worker = s.worker
  outbox_eq : s₁.outbox = s.outbox
  accepted_eq : s₁.journal.accepted = s.journal.accepted

section Turns

variable {s s₁ s' : Scene} {h : Handover}

/-- A turn gives no ids. -/
theorem Drains.lastId (hdrains : Drains s s') : s'.outbox.lastId = s.outbox.lastId := by
  cases hdrains with
  | rests _ _ houtbox => rw [houtbox]
  | accepts _ _ _ houtbox => rw [houtbox]
  | deletes _ _ houtbox => rw [houtbox, Table.lastId_delete]

/-- What is accepted from the worker of the turn it has counted, or is about to count. -/
theorem Drains.tally (hdrains : Drains s s') :
    s'.worker.stats.eventsConsumed + s'.worker.uncounted + s.journal.tally s.stamp.post =
      s.worker.stats.eventsConsumed + s.worker.uncounted + s'.journal.tally s.stamp.post := by
  unfold Journal.tally
  cases hdrains with
  | rests _ _ _ haccepted hcount => rw [haccepted, hcount]
  | accepts _ _ _ _ haccepted hcount =>
      rw [haccepted, hcount, List.filter_cons, if_pos (decide_eq_true rfl), List.flatMap_cons,
        List.length_append, Nat.add_assoc]
  | deletes _ _ _ haccepted hcount => rw [haccepted, hcount]

/-- From nobody else anything is accepted. -/
theorem Drains.tally_of_ne (hdrains : Drains s s') {who : String × String}
    (hne : s.stamp.post ≠ who) : s'.journal.tally who = s.journal.tally who := by
  unfold Journal.tally
  cases hdrains with
  | rests _ _ _ haccepted => rw [haccepted]
  | accepts _ _ _ _ haccepted =>
      have hnot : ¬ (decide (s.stamp.post = who) = true) := by
        rw [decide_eq_true_iff]
        exact hne
      rw [haccepted, List.filter_cons, if_neg hnot]
  | deletes _ _ _ haccepted => rw [haccepted]

/-- Control takes up a batch only if it was kept and may be handed on. -/
theorem Lands.claims (hlands : Lands s₁ s') {b : Batch} (hclaims : s'.worker.Claims b) :
    s₁.worker.retained = some b ∧ s₁.worker.link.snapshot.Bears b ∧
      (s₁.worker.link.configured = none → s₁.worker.link.snapshot.state = .running) := by
  have hberth := hlands.berth
  rcases hclaims with hhand | ⟨_, hretained, hbears, hrun⟩
  · unfold Worker.inHand? at hhand
    cases hwait : s'.worker.wait with
    | applying h =>
        rw [hwait] at hberth hhand
        rcases hberth with ⟨_, _, _, hcan, hkept, hbears⟩
        rw [← Option.some.inj hhand]
        exact ⟨hkept, hbears, fun _ => (Snapshot.canProcess_iff.mp hcan).1⟩
    | renewing due started wall h =>
        rw [hwait] at hberth
        exact hberth.elim
    | deleting due h =>
        rw [hwait] at hberth
        exact hberth.elim
    | _ =>
        rw [hwait] at hhand
        exact nomatch hhand
  · rw [hlands.link_eq] at hbears hrun
    rcases hlands.retained with hnone | heq
    · exact nomatch hnone.symm.trans hretained
    · exact ⟨heq.symm.trans hretained, hbears, hrun⟩

/-- Control does not come to wait for a deletion. -/
theorem Lands.not_deleting (hlands : Lands s₁ s') :
    s'.worker.deleting? = none ∧ s'.worker.uncounted = 0 := by
  have hberth := hlands.berth
  unfold Worker.deleting? Worker.uncounted
  cases hwait : s'.worker.wait with
  | deleting due h =>
      rw [hwait] at hberth
      exact hberth.elim
  | deleted due count h =>
      rw [hwait] at hberth
      exact hberth.elim
  | _ => exact ⟨rfl, rfl⟩

/-- Control makes no entry, and claims what it has found kept. -/
theorem Lands.drains (hlands : Lands s₁ s') (hdeleting : s.worker.deleting? = none)
    (houtbox : s₁.outbox = s.outbox) (haccepted : s₁.journal.accepted = s.journal.accepted)
    (hcount : s₁.worker.stats.eventsConsumed =
      s.worker.stats.eventsConsumed + s.worker.uncounted)
    (hkept : ∀ b, s₁.worker.retained = some b → s₁.worker.link.snapshot.Bears b →
      (s₁.worker.link.configured = none → s₁.worker.link.snapshot.state = .running) →
      s.Source b) : Drains s s' := by
  rcases hlands.not_deleting with ⟨hdeleting', huncounted⟩
  refine Drains.rests hdeleting hdeleting' (hlands.outbox_eq.trans houtbox)
    (hlands.marks.accepted.trans haccepted) ?_ fun b hclaims => ?_
  · rw [hlands.consumed_eq, huncounted, Nat.add_zero]
    exact hcount
  · rcases hlands.claims hclaims with ⟨hretained, hbears, hrun⟩
    exact hkept b hretained hbears hrun

/-- The worker claims nothing but what it has in hand. -/
theorem Drains.of_hand (hdeleting : s.worker.deleting? = none)
    (hdeleting' : s'.worker.deleting? = none) (houtbox : s'.outbox = s.outbox)
    (haccepted : s'.journal.accepted = s.journal.accepted)
    (hcount : s'.worker.stats.eventsConsumed + s'.worker.uncounted =
      s.worker.stats.eventsConsumed + s.worker.uncounted)
    (halone : s'.worker.retained = none)
    (hsource : ∀ b, s'.worker.inHand? = some b → s.Source b) : Drains s s' :=
  Drains.rests hdeleting hdeleting' houtbox haccepted hcount fun b hclaims =>
    hsource b (hclaims.of_alone halone)

/-- A batch in hand fails, and may be kept. -/
theorem Blank.failBatch (hblank : Blank s s₁) (hholding : s.worker.Holding h.batch)
    (error : CoordinationError) : Drains s (s₁.failBatch h error) := by
  have halone : s₁.worker.retained = none := by
    rw [hblank.worker_eq]
    exact hholding.alone
  refine (lands_failBatch halone error).drains hholding.deleting hblank.outbox_eq hblank.accepted_eq
    ?_ fun b hb _ _ => ?_
  · rw [hblank.worker_eq, hholding.uncounted]
    rfl
  · rw [← Option.some.inj hb]
    exact Or.inl ⟨h.batch, Or.inl hholding.hand, rfl⟩

/-- A batch in hand is given up. -/
theorem Blank.loseOwnership (hblank : Blank s s₁) (hholding : s.worker.Holding h.batch) :
    Drains s (s₁.loseOwnership h) := by
  refine lands_loseOwnership.drains hholding.deleting hblank.outbox_eq hblank.accepted_eq ?_
    fun b hb _ _ => ?_
  · show s₁.worker.stats.eventsConsumed = _
    rw [hblank.worker_eq, hholding.uncounted, Nat.add_zero]
  · have hb : s₁.worker.retained = some b := hb
    rw [hblank.worker_eq] at hb
    exact nomatch hholding.alone.symm.trans hb

/-- The worker goes on waiting with the batch in hand, or comes to its end. -/
theorem Blank.await (hblank : Blank s s₁) (hholding : s.worker.Holding h.batch) {wait : Wait}
    (hwait : wait = .applying h ∨ (∃ due started wall, wait = .renewing due started wall h) ∨
      wait = .over .broken) : Drains s (s₁.await wait) := by
  have hretained : (s₁.await wait).worker.retained = none := by
    show s₁.worker.retained = none
    rw [hblank.worker_eq]
    exact hholding.alone
  have hcount : (s₁.await wait).worker.stats = s.worker.stats := by
    show s₁.worker.stats = s.worker.stats
    rw [hblank.worker_eq]
  -- In none of these waits a batch is accepted and not yet deleted.
  have hnone : (s₁.await wait).worker.deleting? = none ∧ (s₁.await wait).worker.uncounted = 0 ∧
      ∀ b, (s₁.await wait).worker.inHand? = some b → b = h.batch := by
    rcases hwait with rfl | ⟨_, _, _, rfl⟩ | rfl
    · exact ⟨rfl, rfl, fun b hb => (Option.some.inj hb).symm⟩
    · exact ⟨rfl, rfl, fun b hb => (Option.some.inj hb).symm⟩
    · exact ⟨rfl, rfl, fun b hb => nomatch hb⟩
  refine Drains.of_hand hholding.deleting hnone.1 hblank.outbox_eq hblank.accepted_eq ?_ hretained
    fun b hb => ?_
  · rw [hcount, hnone.2.1, hholding.uncounted]
  · rw [hnone.2.2 b hb]
    exact Or.inl ⟨h.batch, Or.inl hholding.hand, rfl⟩

/-- The sink is done with a batch. If it has accepted the batch then the agent may still
    process, so its events are to be deleted. -/
theorem Blank.sinkDone (hblank : Blank s s₁) (hholding : s.worker.Holding h.batch)
    (hcan : s.canProcess = true) (ending : Ending) : Drains s (s₁.sinkDone h ending) := by
  have hstamp : s₁.stamp = s.stamp := by
    rw [stamp, stamp, hblank.name_eq, hblank.worker_eq, hblank.now_eq]
  unfold Scene.sinkDone
  cases ending with
  | broken =>
      have hentered : Blank s (s₁.enter (.ended s₁.stamp h.batch .broken)) :=
        ⟨hblank.now_eq, hblank.name_eq, hblank.worker_eq, hblank.outbox_eq, hblank.accepted_eq⟩
      exact hentered.await hholding (Or.inr (Or.inr rfl))
  | refused message =>
      have hentered : Blank s (s₁.enter (.ended s₁.stamp h.batch (.refused message))) :=
        ⟨hblank.now_eq, hblank.name_eq, hblank.worker_eq, hblank.outbox_eq, hblank.accepted_eq⟩
      exact hentered.failBatch hholding _
  | accepted =>
      have hcan₁ : (s₁.enter (.ended s₁.stamp h.batch .accepted)).canProcess = true := by
        show s₁.worker.link.snapshot.canProcess s₁.now = true
        rw [hblank.worker_eq, hblank.now_eq]
        exact hcan
      dsimp only
      rw [if_pos hcan₁]
      -- What is accepted here is from now on to be deleted by this worker.
      refine Drains.accepts hholding.deleting hholding.hand rfl hblank.outbox_eq ?_ ?_
        fun b hclaims => ?_
      · show (s₁.stamp, h.batch) :: s₁.journal.accepted = _
        rw [hstamp, hblank.accepted_eq]
      · show s₁.worker.stats.eventsConsumed + h.batch.events.length = _
        rw [hblank.worker_eq, hholding.uncounted, Nat.add_zero]
      · have halone : s₁.worker.retained = none := by
          rw [hblank.worker_eq]
          exact hholding.alone
        exact (Option.some.inj (hclaims.of_alone halone)).symm

/-- Whatever the worker takes up while its sink has a batch. -/
theorem drains_race (hholding : s.worker.Holding h.batch) (hcan : s.canProcess = true)
    (branches : List Branch) : Drains s (s.race h branches) := by
  rcases race_cases s h branches with ⟨s₁, h₁, hasked, hraced⟩
  have hfirst : Blank s s₁ ∧ h₁.batch = h.batch := by
    cases hasked with
    | before => exact ⟨⟨rfl, rfl, rfl, rfl, rfl⟩, rfl⟩
    | now _ => exact ⟨⟨rfl, rfl, rfl, rfl, Journal.accepted_addNotices _ _⟩, rfl⟩
  rcases hfirst with ⟨hblank, hbatch⟩
  -- The sink is asked for the same batch, whatever it has answered so far.
  rw [← hbatch] at hholding
  generalize s.race h branches = s' at hraced ⊢
  cases hraced with
  | nothing => exact hblank.await hholding (Or.inl rfl)
  | sink _ _ => exact hblank.sinkDone hholding hcan _
  | renewal _ => exact hblank.await hholding (Or.inr (Or.inl ⟨_, _, _, rfl⟩))
  | deadline _ => exact hblank.loseOwnership hholding
  | timeout _ _ => exact hblank.failBatch hholding _

/-- A search is made, and what it finds may be taken in hand. -/
theorem drains_poll (hfree : s.worker.Free) (halone : s.worker.retained = none) (cycle : Cycle) :
    Drains s (s.poll cycle) := by
  rcases poll_cases s cycle with ⟨found, hlands⟩ | ⟨events, hsearch, _, ⟨_, heq⟩ | ⟨_, heq⟩⟩
  · refine hlands.drains hfree.deleting rfl rfl ?_ fun b hb _ _ => ?_
    · rw [hfree.uncounted]
      rfl
    · exact nomatch halone.symm.trans hb
  · rw [heq]
    refine Drains.of_hand hfree.deleting rfl rfl rfl ?_ halone fun b hb => ?_
    · rw [hfree.uncounted]
      rfl
    · rw [← Option.some.inj hb]
      exact Or.inr (Or.inl ⟨_, hsearch⟩)
  · rw [heq]
    refine lands_loseOwnership.drains hfree.deleting rfl rfl ?_ fun b hb _ _ => ?_
    · rw [hfree.uncounted]
      rfl
    · exact nomatch halone.symm.trans hb

/-- After a renewal the sink keeps the batch, or it is given up. -/
theorem drains_renew (hholding : s.worker.Holding h.batch) (started : Nat) (wall : Int) :
    Drains s (s.renew started wall h) := by
  unfold renew
  dsimp only [keepApplying]
  have haccepted : ((s.enter (.renewed s.stamp)).attempt fun l =>
      l.renew { started, wall, opened := s.now }).journal.accepted = s.journal.accepted :=
    Journal.accepted_addNotices _ _
  split
  · refine Drains.of_hand hholding.deleting rfl rfl haccepted ?_ hholding.alone fun b hb => ?_
    · rw [hholding.uncounted]
      rfl
    · rw [← Option.some.inj hb]
      exact Or.inl ⟨h.batch, Or.inl hholding.hand, rfl⟩
  · refine lands_loseOwnership.drains hholding.deleting rfl haccepted ?_ fun b hb _ _ => ?_
    · rw [hholding.uncounted]
      rfl
    · exact nomatch hholding.alone.symm.trans hb

/-- After a pulse a kept batch may be taken up that was claimed before. Only a dynamic agent
    can have lost its shard before the pulse and have it back after it. Who breaks down in a
    pulse claims nothing any more. -/
theorem drains_pulse {static : Bool} (hready : Ready static s) (hfree : s.worker.Free) :
    Drains s (s.pulse s.now s.wall) := by
  rcases s.pulse_cases s.now s.wall with ⟨_, heq⟩ | ⟨hwhole, heq⟩
  · rw [heq]
    refine Drains.rests hfree.deleting rfl rfl (Journal.accepted_addNotices _ _) ?_
      fun b hclaims => absurd hclaims (Worker.not_claims_of_over rfl b)
    rw [hfree.uncounted]
    rfl
  rcases hready.pulses hwhole with ⟨me, reported, hwrites, hlink, _⟩
  have hlands : Lands
      { (s.enter (.pulsed s.stamp)).attempt fun l => l.pulse ⟨s.now, s.wall, s.now⟩
        with worker.nextPulse := s.now + s.worker.settings.pulseInterval }
      (s.pulse s.now s.wall) := by
    rw [heq]
    exact (Rolls.refl _).cycleIfDue
  refine hlands.drains hfree.deleting rfl (Journal.accepted_addNotices _ _) ?_
    fun b hb hbears _ => ?_
  · rw [hfree.uncounted]
    rfl
  · have hb : s.worker.retained = some b := hb
    have hbears : Snapshot.Bears (Link.pulse s.worker.link ⟨s.now, s.wall, s.now⟩ s.host.access
        s.agents).link.snapshot b := hbears
    rw [hlink] at hbears
    by_cases hconf : s.worker.link.configured = none
    · exact Or.inr (Or.inr ⟨hconf, hb⟩)
    · -- A configured agent goes on with its record and its shard.
      rcases hready.fit with hnew | ⟨a, hreg⟩
      · exact nomatch hnew.retained.symm.trans hb
      · have hbefore := hreg.bears_before hready.ordered hready.wall_le hwrites hconf hbears.1
          hbears.2
        exact Or.inl ⟨b, Or.inr ⟨hfree.lives, hb, hbefore, fun hnone => absurd hnone hconf⟩, rfl⟩

/-- The events of a batch are deleted at once. -/
theorem drains_delete (hunarmed : s.host.access.faults.armed = []) {due : Nat}
    (hwait : s.worker.wait = .deleting due h) (hdue : due ≤ s.now)
    (halone : s.worker.retained = none) : Drains s (s.delete h due) := by
  have hdeleting : s.worker.deleting? = some h.batch := by
    rw [Worker.deleting?, hwait]
  have huncounted : s.worker.uncounted = h.batch.events.length := by
    rw [Worker.uncounted, hwait]
  rw [delete_eq hunarmed hdue]
  refine Drains.deletes hdeleting rfl rfl rfl ?_ fun b hclaims => ?_
  · rw [huncounted]
    rfl
  · exact nomatch hclaims.of_alone halone

/-- A batch that was deleted is counted. -/
theorem drains_confirm {due count : Nat} (hwait : s.worker.wait = .deleted due count h)
    (hdue : due ≤ s.now)
    (hheld : h.Held s.worker.retained s.worker.link.snapshot s.host.name s.worker.name s.journal) :
    Drains s (s.confirm h due count) := by
  have hdeleting : s.worker.deleting? = none := by
    rw [Worker.deleting?, hwait]
  have huncounted : s.worker.uncounted = h.batch.events.length := by
    rw [Worker.uncounted, hwait]
  unfold confirm
  rw [if_pos hdue]
  refine (lands_completeBatch hheld.alone hheld.agent hheld.shard count).drains hdeleting rfl rfl ?_
    fun b hb _ _ => ?_
  · rw [huncounted]
  · exact nomatch hheld.alone.symm.trans hb

/-- Who leaves comes to its end. -/
theorem drains_leave (hfree : s.worker.Free) (halt : Option Halt) : Drains s (s.leave halt) := by
  have haccepted : (s.attempt fun l => l.leave).journal.accepted = s.journal.accepted :=
    Journal.accepted_addNotices _ _
  have hcount : s.worker.stats.eventsConsumed + 0 =
      s.worker.stats.eventsConsumed + s.worker.uncounted := by
    rw [hfree.uncounted]
  unfold leave
  cases halt with
  | none =>
      exact Drains.rests hfree.deleting rfl rfl haccepted hcount fun b hclaims =>
        absurd hclaims (Worker.not_claims_of_over rfl b)
  | some reason =>
      exact Drains.rests hfree.deleting rfl rfl haccepted hcount fun b hclaims =>
        absurd hclaims (Worker.not_claims_of_over rfl b)

/-- Control at the head of the loop claims what was claimed before. -/
theorem Lands.drains_loop (hlands : Lands s s') (hfree : s.worker.Free) : Drains s s' := by
  refine hlands.drains hfree.deleting rfl rfl ?_ fun b hb hbears hrun => ?_
  · rw [hfree.uncounted, Nat.add_zero]
  · exact Or.inl ⟨b, Or.inr ⟨hfree.lives, hb, hbears, hrun⟩, rfl⟩

/-- A worker that has not begun or has come to its end does nothing. -/
theorem Drains.refl (hdeleting : s.worker.deleting? = none) : Drains s s :=
  Drains.rests hdeleting hdeleting rfl rfl rfl fun b hclaims => Or.inl ⟨b, hclaims, rfl⟩

/-- What a turn does to the ledger, as long as nothing fails. -/
theorem resume_drains {static : Bool} {bound : Nat} (hserved : Served static s)
    (hsound : s.worker.Sound s.host.name s.journal s.now bound)
    (hattended : s.worker.Attended static s.agents s.wall s.now) : Drains s s.resume := by
  have hwaits := hsound.waits
  have htimely := hattended.timely
  have hready : s.worker.isOver = false → Ready static s :=
    fun hnot => ⟨hserved, hattended.checked, hattended.fit hnot⟩
  unfold Worker.Waits at hwaits
  unfold Worker.Timely at htimely
  unfold resume
  cases hwait : s.worker.wait with
  | held => exact Drains.refl (Worker.Free.of_wait hwait ⟨rfl, rfl, rfl⟩).deleting
  | «over» how =>
      refine Drains.refl ?_
      rw [Worker.deleting?, hwait]
  | launched => exact (Rolls.refl s).launch.drains_loop (Worker.Free.of_wait hwait ⟨rfl, rfl, rfl⟩)
  | resting wake =>
      exact ((Rolls.refl s).wake wake).drains_loop (Worker.Free.of_wait hwait ⟨rfl, rfl, rfl⟩)
  | pulsing due started wall =>
      have hfree := Worker.Free.of_wait hwait ⟨rfl, rfl, rfl⟩
      rw [hwait] at htimely
      rcases htimely with ⟨_, rfl, rfl⟩
      exact drains_pulse (hready hfree.lives) hfree
  | polling due cycle =>
      rw [hwait] at hwaits
      exact drains_poll (Worker.Free.of_wait hwait ⟨rfl, rfl, rfl⟩) hwaits.1 cycle
  | applying h =>
      have hfree := Worker.Free.of_wait hwait ⟨rfl, rfl, rfl⟩
      rw [hwait] at hwaits
      have hfresh : s.worker.isFresh = false := by
        unfold Worker.isFresh
        rw [hwait]
      -- The agent still owns the shard, so the answer of the sink is not thrown away.
      have hcan := ((hready hfree.lives).begun hfresh).canProcess hwaits.2.1
      exact drains_race (Worker.holding_of_wait hwaits.1.alone (Or.inl hwait)) hcan _
  | renewing due started wall h =>
      rw [hwait] at hwaits
      exact drains_renew (Worker.holding_of_wait hwaits.1.alone (Or.inr ⟨_, _, _, hwait⟩)) _ _
  | deleting due h =>
      rw [hwait] at htimely hwaits
      exact drains_delete hserved.calm.unarmed hwait htimely.1 hwaits.alone
  | deleted due count h =>
      rw [hwait] at htimely hwaits
      exact drains_confirm hwait htimely hwaits
  | leaving due halt => exact drains_leave (Worker.Free.of_wait hwait ⟨rfl, rfl, rfl⟩) halt

end Turns

end Scene

end OutboxCluster
