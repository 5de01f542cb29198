import OutboxCluster.Proofs.Atomic
import OutboxCluster.Proofs.Landing
import OutboxCluster.Proofs.Settings

/-!
# What one Cycle Drains

Where nothing gets in the way, a cycle hands on the first events of its shard in full
batches, and in one that is not full at the end, until the shard is empty or the bound on
batches in a row is reached. Then it rests: not at all if there may be more, and for the
polling interval otherwise.

A batch that is not full ends the cycle, but a full one does not say whether there is
another event. So where the rows of the shard are a multiple of the batch size, one more
search finds nothing and ends the cycle, unless the bound has ended it before. The law has
to come out the same in both cases, and the induction is on the batches that the bound
still allows, over an outbox from which the batches before have been deleted.

Each turn is described by what it hands on, deletes and counts (`Pass`), and these add up
along a cycle. What a worker passes over in its wait for the sink makes no difference, as
nothing but the word of the sink is there.

## Main definitions

* `Scene.turns`: Several turns of the worker, one after another.
* `Scene.Unhampered`: Nothing gets in the way of the worker.
* `Scene.Pass`: What turns hand on, delete and count.
* `Scene.Rested`: A cycle has just ended.
* `Scene.Empties`: What the rest of a cycle hands on.

## Theorems

* `pass_found`, `pass_accepted`, `pass_deleted`: The turns over one batch.
* `pass_complete`: What comes after a batch.
* `empties_polling`: From a search to the end of the cycle.
* `cycle_drains_exactly`: What a cycle hands on and deletes, and how long the rest is.
-/

namespace OutboxCluster

/-- The batch that a sink was given. -/
def Entry.handed? : Entry → Option Batch
  | .began _ _ batch => some batch
  | _ => none

namespace Journal

/-- The batches that sinks were given, oldest first. -/
def handed (j : Journal) : List Batch := j.reverse.filterMap Entry.handed?

theorem handed_cons (e : Entry) (j : Journal) : handed (e :: j) = j.handed ++ e.handed?.toList := by
  cases h : e.handed? <;> simp [handed, h]

theorem handed_addNotices (j : Journal) (ns : List Notice) :
    (j.addNotices ns).handed = j.handed := by
  simp [handed, addNotices, Entry.handed?]

end Journal

/-- A sink accepts every batch at once. -/
def Sink.Obliges : Sink → Prop
  | .reporting => True
  | .scripted script default => ∀ b ∈ default :: script, b.delay = 0 ∧ b.ending = .accepted

theorem Sink.Obliges.next {sink : Sink} (h : sink.Obliges) :
    sink.next.1.delay = 0 ∧ sink.next.1.ending = .accepted ∧ sink.next.2.Obliges := by
  cases sink with
  | reporting => exact ⟨rfl, rfl, trivial⟩
  | scripted script default =>
      cases script with
      | nil => exact ⟨(h default List.mem_cons_self).1, (h default List.mem_cons_self).2, h⟩
      | cons b script =>
          have hb := h b (List.mem_cons_of_mem _ List.mem_cons_self)
          refine ⟨hb.1, hb.2, fun b' hb' => h b' ?_⟩
          rcases List.mem_cons.mp hb' with rfl | hb'
          · exact List.mem_cons_self
          · exact List.mem_cons_of_mem _ (List.mem_cons_of_mem _ hb')

theorem Table.delete_append {α : Type} (t : Table α) (ids ids' : List Int) :
    (t.delete ids).delete ids' = t.delete (ids ++ ids') := by
  simp [Table.delete, List.filter_filter, Bool.and_comm]

namespace Scene

/-- The worker takes its turn if it goes on now, and passes over `skip` branches of its wait at
    first. -/
def turn (s : Scene) (skip : Nat) : Scene :=
  if (s.worker.dueAt s.signal).any (· ≤ s.now) then resume { s with skip } else s

/-- Several turns, one after another. -/
def turns (s : Scene) (skips : List Nat) : Scene := skips.foldl turn s

/-- Nothing gets in the way of the worker: the agent may process, no pulse is due, there is no
    request to stop, searches and deletions succeed at once, and so does the sink. -/
structure Unhampered (s : Scene) : Prop where
  can : s.canProcess = true
  early : s.now < s.worker.nextPulse
  lowered : s.signal.raised = false
  spared : ∀ point ∈ [UsePoint.find, .deleteEvents],
    (s.host.access.faults.strike point).1 = none
  instant : ∀ point ∈ [UsePoint.find, .deleteEvents, .afterDeleteEvents],
    s.host.access.faults.delay point = 0
  obliging : s.host.sink.Obliges

/-- The sink was given batches, events were deleted and counted, and nothing else has changed
    that a cycle looks at. -/
structure Pass (s s' : Scene) (handed : List Batch) (gone : List Int) (consumed : Nat) :
    Prop where
  now_eq : s'.now = s.now
  signal_eq : s'.signal = s.signal
  access_eq : s'.host.access = s.host.access
  stamp_eq : s'.stamp = s.stamp
  link_eq : s'.worker.link = s.worker.link
  settings_eq : s'.worker.settings = s.worker.settings
  nextPulse_eq : s'.worker.nextPulse = s.worker.nextPulse
  retained_eq : s'.worker.retained = s.worker.retained
  obliges : s.host.sink.Obliges → s'.host.sink.Obliges
  handed_eq : s'.journal.handed = s.journal.handed ++ handed
  outbox_eq : s'.outbox = s.outbox.delete gone
  consumed_eq : s'.worker.stats.eventsConsumed = s.worker.stats.eventsConsumed + consumed

/-- A cycle has just ended, and the next one comes after `wait` milliseconds. -/
structure Rested (s : Scene) (wait : Nat) : Prop where
  rests : s.worker.wait = .resting (min s.worker.nextCycle s.worker.nextPulse)
  nextCycle : s.worker.nextCycle = s.now + wait
  idle : s.worker.state = .idle
  ended : s.journal.head? = some (.cycleEnded s.stamp wait)

section Parts

variable {s s' s'' : Scene} {handed handed' : List Batch} {gone gone' : List Int}
  {consumed consumed' : Nat}

theorem Pass.refl (s : Scene) : Pass s s [] [] 0 :=
  ⟨rfl, rfl, rfl, rfl, rfl, rfl, rfl, rfl, id, (List.append_nil _).symm,
    (Table.delete_nil _).symm, rfl⟩

theorem Pass.trans (h : Pass s s' handed gone consumed) (h' : Pass s' s'' handed' gone' consumed') :
    Pass s s'' (handed ++ handed') (gone ++ gone') (consumed + consumed') where
  now_eq := h'.now_eq.trans h.now_eq
  signal_eq := h'.signal_eq.trans h.signal_eq
  access_eq := h'.access_eq.trans h.access_eq
  stamp_eq := h'.stamp_eq.trans h.stamp_eq
  link_eq := h'.link_eq.trans h.link_eq
  settings_eq := h'.settings_eq.trans h.settings_eq
  nextPulse_eq := h'.nextPulse_eq.trans h.nextPulse_eq
  retained_eq := h'.retained_eq.trans h.retained_eq
  obliges := h'.obliges ∘ h.obliges
  handed_eq := by rw [h'.handed_eq, h.handed_eq, List.append_assoc]
  outbox_eq := by rw [h'.outbox_eq, h.outbox_eq, Table.delete_append]
  consumed_eq := by rw [h'.consumed_eq, h.consumed_eq, Nat.add_assoc]

theorem Pass.enter (h : Pass s s' handed gone consumed) {e : Entry} (he : e.handed? = none) :
    Pass s (s'.enter e) handed gone consumed :=
  ⟨h.now_eq, h.signal_eq, h.access_eq, h.stamp_eq, h.link_eq, h.settings_eq, h.nextPulse_eq,
    h.retained_eq, h.obliges, by simp [Scene.enter, Journal.handed_cons, he, h.handed_eq],
    h.outbox_eq, h.consumed_eq⟩

theorem Pass.becomes (h : Pass s s' handed gone consumed) (state : ProcessorState) :
    Pass s (s'.becomes state) handed gone consumed :=
  ⟨h.now_eq, h.signal_eq, h.access_eq, h.stamp_eq, h.link_eq, h.settings_eq, h.nextPulse_eq,
    h.retained_eq, h.obliges, h.handed_eq, h.outbox_eq, h.consumed_eq⟩

theorem Pass.await (h : Pass s s' handed gone consumed) (wait : Wait) :
    Pass s (s'.await wait) handed gone consumed :=
  ⟨h.now_eq, h.signal_eq, h.access_eq, h.stamp_eq, h.link_eq, h.settings_eq, h.nextPulse_eq,
    h.retained_eq, h.obliges, h.handed_eq, h.outbox_eq, h.consumed_eq⟩

/-- A cycle that ends with nothing in hand. -/
theorem Pass.endIdle (h : Pass s s' handed gone consumed) (wait : Nat) :
    Pass s (s'.endIdle wait) handed gone consumed ∧ (s'.endIdle wait).Rested wait := by
  have hended := (h.becomes .idle).enter (e := .cycleEnded s'.stamp wait) rfl
  exact ⟨⟨hended.now_eq, hended.signal_eq, hended.access_eq, hended.stamp_eq, hended.link_eq,
    hended.settings_eq, hended.nextPulse_eq, hended.retained_eq, hended.obliges,
    hended.handed_eq, hended.outbox_eq, hended.consumed_eq⟩, ⟨rfl, rfl, rfl, rfl⟩⟩

theorem Pass.unhampered (h : Pass s s' handed gone consumed) (hs : s.Unhampered) :
    s'.Unhampered where
  can := by rw [canProcess, h.link_eq, h.now_eq]; exact hs.can
  early := by rw [h.nextPulse_eq, h.now_eq]; exact hs.early
  lowered := by rw [h.signal_eq]; exact hs.lowered
  spared := by rw [h.access_eq]; exact hs.spared
  instant := by rw [h.access_eq]; exact hs.instant
  obliging := h.obliges hs.obliging

theorem Unhampered.strike_eq (hs : s.Unhampered) (point : UsePoint)
    (hpoint : point ∈ [UsePoint.find, .deleteEvents]) : s.strike point = (none, s) := by
  rw [strike, Faults.strike_of_isNone (hs.spared point hpoint)]

theorem Unhampered.after_eq (hs : s.Unhampered) {point : UsePoint}
    (hpoint : point ∈ [UsePoint.find, .deleteEvents, .afterDeleteEvents]) :
    s.after point = s.now := by
  rw [after, hs.instant point hpoint, Nat.add_zero]

theorem Unhampered.skipping (hs : s.Unhampered) (skip : Nat) :
    ({ s with skip } : Scene).Unhampered :=
  ⟨hs.can, hs.early, hs.lowered, hs.spared, hs.instant, hs.obliging⟩

theorem Pass.of_skipping {skip : Nat} (h : Pass { s with skip } s' handed gone consumed) :
    Pass s s' handed gone consumed :=
  ⟨h.now_eq, h.signal_eq, h.access_eq, h.stamp_eq, h.link_eq, h.settings_eq, h.nextPulse_eq,
    h.retained_eq, h.obliges, h.handed_eq, h.outbox_eq, h.consumed_eq⟩

end Parts

section Turns

variable {s : Scene} {cycle : Cycle} {h : Handover} {due count : Nat}

/-- A turn is taken where one of the instants that a worker waits for has come. -/
theorem turn_of_due (due : Nat) (limit : Option Nat)
    (hwait : s.worker.dueAt s.signal = Worker.earlier (some due) limit) (hdue : due ≤ s.now)
    (skip : Nat) : s.turn skip = resume { s with skip } := by
  refine if_pos ?_
  rw [hwait]
  cases limit with
  | none => simp [Worker.earlier, hdue]
  | some limit => simp [Worker.earlier, Nat.le_trans (Nat.min_le_left due limit) hdue]

theorem turn_polling (hwait : s.worker.wait = .polling due cycle) (hdue : due ≤ s.now)
    (skip : Nat) : s.turn skip = poll { s with skip } cycle := by
  rw [turn_of_due due none (by rw [Worker.dueAt, hwait]; rfl) hdue, resume]
  simp only [hwait]

theorem turn_applying (hwait : s.worker.wait = .applying h) (hongoing : h.ongoing = none)
    (skip : Nat) : s.turn skip = apply { s with skip } h := by
  rw [turn_of_due 0 none (by simp only [Worker.dueAt, hwait, hongoing]; rfl)
    (Nat.zero_le _), resume]
  simp only [hwait]

theorem turn_deleting (hwait : s.worker.wait = .deleting due h) (hdue : due ≤ s.now)
    (skip : Nat) : s.turn skip = delete { s with skip } h due := by
  rw [turn_of_due due h.timeoutAt (by rw [Worker.dueAt, hwait]) hdue, resume]
  simp only [hwait]

theorem turn_deleted (hwait : s.worker.wait = .deleted due count h) (hdue : due ≤ s.now)
    (skip : Nat) : s.turn skip = completeBatch { s with skip } h count := by
  rw [turn_of_due due h.timeoutAt (by rw [Worker.dueAt, hwait]) hdue, resume]
  simp only [hwait, confirm]
  exact if_pos hdue

/-- A search that finds something is followed by the batch. -/
theorem pass_found (hs : s.Unhampered) {events : List OutboxEvent}
    (hfound : s.outbox.search cycle.assignment s.worker.settings.batchSize = .ok events)
    (hne : events ≠ []) : Pass s (s.poll cycle) [] [] 0 ∧
      (s.poll cycle).worker.wait = .applying (s.taken cycle events) := by
  have hpoll : s.poll cycle = ((s.enter (.searched s.stamp s.worker.link.snapshot
      cycle.assignment (some events))).becomes .applying).await
      (.applying (s.taken cycle events)) := by
    simp only [poll, hs.strike_eq .find (by simp), hfound, List.isEmpty_iff, hne,
      if_false]
    exact if_pos hs.can
  rw [hpoll]
  exact ⟨(((Pass.refl s).enter rfl).becomes _).await _, rfl⟩

/-- A search that finds nothing ends the cycle. -/
theorem pass_empty (hs : s.Unhampered)
    (hfound : s.outbox.search cycle.assignment s.worker.settings.batchSize = .ok []) :
    Pass s (s.poll cycle) [] [] 0 ∧ (s.poll cycle).Rested s.worker.settings.pollingInterval := by
  have hpoll : s.poll cycle = (s.enter (.searched s.stamp s.worker.link.snapshot
      cycle.assignment (some []))).endIdle s.worker.settings.pollingInterval := by
    simp only [poll, hs.strike_eq .find (by simp), hfound]
    rfl
  rw [hpoll]
  exact ((Pass.refl s).enter rfl).endIdle _

/-- The sink is given the batch and is done with it. -/
theorem pass_askSink (hs : s.Unhampered) : Pass s (s.askSink h).1 [h.batch] [] 0 ∧
    (s.askSink h).2 = (s.now, .accepted) := by
  refine ⟨⟨rfl, rfl, rfl, rfl, rfl, rfl, rfl, rfl, fun hobliges => hobliges.next.2.2, ?_,
    (Table.delete_nil _).symm, rfl⟩, ?_⟩
  · simp only [askSink, Journal.handed_addNotices]
    exact Journal.handed_cons _ _
  · simp only [askSink, hs.obliging.next.1, hs.obliging.next.2.1]
    rfl

/-- Of all that a worker waits for while its sink has a batch, only the sink is there. -/
theorem race_accepted (hs : s.Unhampered) (hongoing : h.ongoing = none)
    (htime : ∀ limit, h.timeoutAt = some limit → s.now < limit) {branches : List Branch}
    (hmem : .sink ∈ branches) : s.race h branches =
      (s.askSink h).1.sinkDone { h with ongoing := some (s.now, .accepted) } .accepted := by
  induction branches with
  | nil => exact absurd hmem List.not_mem_nil
  | cons branch rest ih =>
      -- A branch that is looked at before the sink is not ready yet.
      cases branch with
      | sink =>
          simp only [race, hongoing, (pass_askSink hs).2]
          exact if_pos (Nat.le_refl _)
      | renewal =>
          rw [race, if_neg (Nat.not_le.mpr hs.early)]
          exact ih (by simpa using hmem)
      | deadline =>
          have hlive : ¬ (s.worker.link.snapshot.leaseDeadline.any (· ≤ s.now)) = true :=
            fun hlapsed => Bool.false_ne_true ((canProcess_of_lapsed hlapsed).symm.trans hs.can)
          rw [race, if_neg hlive]
          exact ih (by simpa using hmem)
      | timeout =>
          have hintime : ¬ (h.timeoutAt.any (· ≤ s.now)) = true := by
            rw [Option.any_eq_true]
            rintro ⟨limit, hlimit, hle⟩
            exact absurd (htime limit hlimit) (Nat.not_lt.mpr (of_decide_eq_true hle))
          rw [race, if_neg hintime]
          exact ih (by simpa using hmem)

/-- A batch is accepted at once, and its events are to be deleted. -/
theorem pass_accepted (hs : s.Unhampered) (hongoing : h.ongoing = none)
    (htime : ∀ limit, h.timeoutAt = some limit → s.now < limit) :
    Pass s (s.apply h) [h.batch] [] 0 ∧
      (s.apply h).worker.wait =
        .deleting s.now { h with ongoing := some (s.now, .accepted) } := by
  have hasked := (pass_askSink (h := h) hs).1
  have hcan : ((s.askSink h).1.enter (.ended (s.askSink h).1.stamp h.batch .accepted)).canProcess =
      true := hs.can
  have hafter : ((s.askSink h).1.enter (.ended (s.askSink h).1.stamp h.batch .accepted)).after
      .deleteEvents = s.now := hs.after_eq (by simp)
  rw [apply, race_accepted hs hongoing htime (mem_branches .sink s.skip), sinkDone]
  dsimp only
  rw [if_pos hcan, askDelete, hafter]
  exact ⟨((hasked.enter rfl).enter rfl).await _, rfl⟩

/-- The events of a batch are deleted. -/
theorem pass_deleted (hs : s.Unhampered) (hdue : due ≤ s.now) :
    Pass s (s.delete h due) [] h.batch.ids 0 ∧
      ∃ count, (s.delete h due).worker.wait = .deleted s.now count h := by
  have hafter : ({ s.enter (.deleted s.stamp h.batch.ids (s.outbox.count h.batch.ids)) with
      outbox := s.outbox.delete h.batch.ids } : Scene).after .afterDeleteEvents = s.now :=
    hs.after_eq (by simp)
  have hentered := (Pass.refl s).enter
    (e := .deleted s.stamp h.batch.ids (s.outbox.count h.batch.ids)) rfl
  rw [delete, if_pos hdue, hs.strike_eq .deleteEvents (by simp)]
  dsimp only
  refine ⟨⟨rfl, rfl, rfl, rfl, rfl, rfl, rfl, rfl, id, hentered.handed_eq, rfl, rfl⟩,
    s.outbox.count h.batch.ids, ?_⟩
  exact congrArg (Wait.deleted · _ h) hafter

/-- A batch that is not full, or that is the last one allowed, ends the cycle. After any other
    one the next search begins. -/
theorem pass_complete (hs : s.Unhampered) (halone : s.worker.retained = none) (count : Nat) :
    Pass s (s.completeBatch h count) [] [] h.batch.events.length ∧
      (h.batch.events.length < s.worker.settings.batchSize →
        (s.completeBatch h count).Rested s.worker.settings.pollingInterval) ∧
      (s.worker.settings.batchSize ≤ h.batch.events.length →
        s.worker.settings.maxConsecutiveBatches ≤ h.cycle.batches + 1 →
        (s.completeBatch h count).Rested 0) ∧
      (s.worker.settings.batchSize ≤ h.batch.events.length →
        h.cycle.batches + 1 < s.worker.settings.maxConsecutiveBatches →
        (s.completeBatch h count).worker.wait =
          .polling s.now { h.cycle with batches := h.cycle.batches + 1 }) := by
  unfold completeBatch
  dsimp only
  -- Whether fewer events were deleted is reported and makes no difference.
  generalize hreport : (if count < h.batch.events.length then _ else _ : Scene) = s'
  have hpass : Pass s s' [] [] h.batch.events.length := by
    have hcounted : Pass s { s with
        worker.stats.batchesApplied := s.worker.stats.batchesApplied + 1
        worker.stats.eventsConsumed := s.worker.stats.eventsConsumed + h.batch.events.length }
        [] [] h.batch.events.length :=
      ⟨rfl, rfl, rfl, rfl, rfl, rfl, rfl, rfl, id, (List.append_nil _).symm,
        (Table.delete_nil _).symm, rfl⟩
    rw [← hreport]
    split
    · exact hcounted.enter rfl
    · exact hcounted
  clear hreport
  have hs' := hpass.unhampered hs
  rw [hpass.settings_eq]
  by_cases hpartial : h.batch.events.length < s.worker.settings.batchSize
  · rw [if_pos hpartial]
    have hended := hpass.endIdle s.worker.settings.pollingInterval
    exact ⟨hended.1, fun _ => hended.2, fun hfull => absurd hpartial (Nat.not_lt.mpr hfull),
      fun hfull => absurd hpartial (Nat.not_lt.mpr hfull)⟩
  · rw [if_neg hpartial]
    by_cases hlast : s.worker.settings.maxConsecutiveBatches ≤ h.cycle.batches + 1
    · rw [if_pos (Or.inr (Or.inl hlast))]
      have hended := hpass.endIdle 0
      exact ⟨hended.1, fun h => absurd h hpartial, fun _ _ => hended.2,
        fun _ hmore => absurd hmore (Nat.not_lt.mpr hlast)⟩
    · have hgoes : ¬ (s'.worker.nextPulse ≤ s'.now ∨
          s.worker.settings.maxConsecutiveBatches ≤ h.cycle.batches + 1 ∨
          (! s'.canProcess) = true ∨ s'.signal.raised = true) := by
        simp [Nat.not_le.mpr hs'.early, hlast, hs'.can, hs'.lowered]
      have hfree : s'.worker.retained = none := hpass.retained_eq.trans halone
      have hafter : s'.after .find = s.now :=
        (hs'.after_eq (by simp)).trans hpass.now_eq
      have hnext : s'.nextBatch { h.cycle with batches := h.cycle.batches + 1 } =
          (s'.becomes .polling).await
            (.polling s.now { h.cycle with batches := h.cycle.batches + 1 }) := by
        rw [nextBatch, hfree, ← hafter]
      rw [if_neg hgoes, hnext]
      exact ⟨(hpass.becomes _).await _, fun h => absurd h hpartial,
        fun _ h => absurd h hlast, fun _ _ => rfl⟩

/-- Three turns over a batch: it is found, accepted and deleted. -/
theorem pass_batch (hs : s.Unhampered) (hpositive : s.worker.settings.Positive)
    (hwait : s.worker.wait = .polling due cycle) (hdue : due ≤ s.now) {events : List OutboxEvent}
    (hfound : s.outbox.search cycle.assignment s.worker.settings.batchSize = .ok events)
    (hne : events ≠ []) (k₁ k₂ k₃ : Nat) :
    ∃ h count, Pass s (s.turns [k₁, k₂, k₃]) [h.batch] (events.map (·.id)) 0 ∧
      (s.turns [k₁, k₂, k₃]).worker.wait = .deleted s.now count h ∧ h.cycle = cycle ∧
      h.batch.events = events := by
  simp only [turns, List.foldl_cons, List.foldl_nil]
  rw [turn_polling hwait hdue]
  rcases pass_found (s := { s with skip := k₁ }) (hs.skipping k₁) hfound hne with ⟨hpass₁, hwait₁⟩
  have hs₁ := hpass₁.unhampered (hs.skipping k₁)
  have hnow₁ := hpass₁.now_eq
  generalize hscene₁ : poll { s with skip := k₁ } cycle = s₁ at hpass₁ hwait₁ hs₁ hnow₁ ⊢
  rw [turn_applying hwait₁ rfl]
  -- A search takes no time, and some time is always allowed.
  have htime : ∀ limit, (taken { s with skip := k₁ } cycle events).timeoutAt = some limit →
      s₁.now < limit := by
    intro limit hlimit
    rcases Option.map_eq_some_iff.mp hlimit with ⟨timeout, htimeout, rfl⟩
    have := hpositive.transactionTimeout timeout htimeout
    rw [hnow₁]
    exact Nat.lt_add_of_pos_right this
  rcases pass_accepted (s := { s₁ with skip := k₂ }) (hs₁.skipping k₂) rfl htime with
    ⟨hpass₂, hwait₂⟩
  have hs₂ := hpass₂.unhampered (hs₁.skipping k₂)
  have hnow₂ := hpass₂.now_eq
  generalize apply { s₁ with skip := k₂ } _ = s₂ at hpass₂ hwait₂ hs₂ hnow₂ ⊢
  rw [turn_deleting hwait₂ (Nat.le_of_eq hnow₂.symm)]
  rcases pass_deleted (s := { s₂ with skip := k₃ }) (hs₂.skipping k₃)
    (Nat.le_of_eq hnow₂.symm) with ⟨hpass₃, count, hwait₃⟩
  refine ⟨{ taken { s with skip := k₁ } cycle events with ongoing := some (s₁.now, .accepted) },
    count, (hpass₁.of_skipping.trans hpass₂.of_skipping).trans hpass₃.of_skipping, ?_, rfl, rfl⟩
  rw [hwait₃]
  exact congrArg (Wait.deleted · count _) (hnow₂.trans hnow₁)

/-- Four turns over a batch, to the end of the cycle or to the next search. -/
theorem pass_through (hs : s.Unhampered) (hpositive : s.worker.settings.Positive)
    (halone : s.worker.retained = none) (hwait : s.worker.wait = .polling due cycle)
    (hdue : due ≤ s.now) {events : List OutboxEvent}
    (hfound : s.outbox.search cycle.assignment s.worker.settings.batchSize = .ok events)
    (hne : events ≠ []) (k₁ k₂ k₃ k₄ : Nat) :
    ∃ batch : Batch, batch.events = events ∧
      Pass s (s.turns [k₁, k₂, k₃, k₄]) [batch] (events.map (·.id)) events.length ∧
      (events.length < s.worker.settings.batchSize →
        (s.turns [k₁, k₂, k₃, k₄]).Rested s.worker.settings.pollingInterval) ∧
      (s.worker.settings.batchSize ≤ events.length →
        s.worker.settings.maxConsecutiveBatches ≤ cycle.batches + 1 →
        (s.turns [k₁, k₂, k₃, k₄]).Rested 0) ∧
      (s.worker.settings.batchSize ≤ events.length →
        cycle.batches + 1 < s.worker.settings.maxConsecutiveBatches →
        (s.turns [k₁, k₂, k₃, k₄]).worker.wait =
          .polling s.now { cycle with batches := cycle.batches + 1 }) := by
  rcases pass_batch hs hpositive hwait hdue hfound hne k₁ k₂ k₃ with
    ⟨h, count, hpass, hwait', rfl, rfl⟩
  -- Three turns have brought the batch to its deletion, and the fourth hears of it.
  have hturns : s.turns [k₁, k₂, k₃, k₄] = (s.turns [k₁, k₂, k₃]).turn k₄ := rfl
  have hs' := hpass.unhampered hs
  have hnow := hpass.now_eq
  have hsettings := hpass.settings_eq
  have hfree := hpass.retained_eq.trans halone
  rw [hturns]
  generalize s.turns [k₁, k₂, k₃] = s₁ at hpass hwait' hs' hnow hsettings hfree ⊢
  rw [turn_deleted hwait' (Nat.le_of_eq hnow.symm)]
  rcases pass_complete (h := h) (s := { s₁ with skip := k₄ }) (hs'.skipping k₄) hfree count with
    ⟨hpass', hpartial, hlast, hmore⟩
  dsimp only at hpartial hlast hmore
  rw [hsettings] at hpartial hlast hmore
  have hall := hpass.trans hpass'.of_skipping
  rw [List.append_nil, List.append_nil, Nat.zero_add] at hall
  exact ⟨h.batch, rfl, hall, hpartial, hlast, fun hfull hallowed =>
    (hmore hfull hallowed).trans (congrArg (Wait.polling · _) hnow)⟩

end Turns

/-- How many batches it takes for `n` events, if there may be `r`. -/
def batchesFor (b n r : Nat) : Nat := min ((n + b - 1) / b) r

/-- How many turns a cycle takes from its first search on: four for each batch, and one for a
    search that finds nothing. -/
def turnsFor (b n r : Nat) : Nat :=
  4 * batchesFor b n r + if n < b * r ∧ n % b = 0 then 1 else 0

section Counts

variable {b n r : Nat}

theorem counts_zero (hb : 0 < b) (hr : 0 < r) : batchesFor b 0 r = 0 ∧ turnsFor b 0 r = 1 := by
  have hnone : batchesFor b 0 r = 0 := by
    rw [batchesFor, Nat.zero_add, Nat.div_eq_of_lt (by omega), Nat.zero_min]
  refine ⟨hnone, ?_⟩
  rw [turnsFor, hnone, if_pos ⟨Nat.mul_pos hb hr, Nat.zero_mod b⟩]

/-- The last batch of a shard is not full, or the bound allows no other one. -/
theorem counts_one (hb : 0 < b) (hn : 0 < n) (hlast : n < b ∧ 0 < r ∨ b ≤ n ∧ r = 1) :
    batchesFor b n r = 1 ∧ turnsFor b n r = 4 := by
  have hceil : 1 ≤ (n + b - 1) / b := (Nat.le_div_iff_mul_le hb).mpr (by omega)
  have hone : batchesFor b n r = 1 := by
    rcases hlast with ⟨hlt, hr⟩ | ⟨_, rfl⟩
    · have : (n + b - 1) / b < 2 := (Nat.div_lt_iff_lt_mul hb).mpr (by omega)
      unfold batchesFor
      omega
    · exact Nat.min_eq_right hceil
  refine ⟨hone, ?_⟩
  rw [turnsFor, hone, if_neg]
  rintro ⟨hlt, hmod⟩
  rcases hlast with ⟨hpartial, _⟩ | ⟨hle, rfl⟩
  · rw [Nat.mod_eq_of_lt hpartial] at hmod
    omega
  · omega

/-- A full batch leaves as many events less. -/
theorem counts_succ (hb : 0 < b) (hle : b ≤ n) :
    batchesFor b n (r + 1) = batchesFor b (n - b) r + 1 ∧
      turnsFor b n (r + 1) = turnsFor b (n - b) r + 4 := by
  have hceil : (n + b - 1) / b = (n - b + b - 1) / b + 1 := by
    rw [← Nat.add_div_right _ hb]
    congr 1
    omega
  have hbatches : batchesFor b n (r + 1) = batchesFor b (n - b) r + 1 := by
    rw [batchesFor, hceil, Nat.add_min_add_right, batchesFor]
  have hextra : (n < b * (r + 1) ∧ n % b = 0) ↔ n - b < b * r ∧ (n - b) % b = 0 := by
    rw [Nat.mod_eq_sub_mod hle, Nat.mul_succ]
    exact and_congr_left fun _ => by omega
  refine ⟨hbatches, ?_⟩
  simp only [turnsFor, hbatches, hextra]
  omega

end Counts

theorem exists_four {skips : List Nat} {k : Nat} (h : skips.length = k + 4) :
    ∃ k₁ k₂ k₃ k₄ rest, skips = [k₁, k₂, k₃, k₄] ++ rest ∧ rest.length = k := by
  match skips, h with
  | k₁ :: k₂ :: k₃ :: k₄ :: rest, h => exact ⟨k₁, k₂, k₃, k₄, rest, rfl, by simpa using h⟩

section Rest

variable {s s₁ s' : Scene} {cycle : Cycle} {due n r : Nat} {events : List OutboxEvent}
  {skips : List Nat}

/-- From `s` to `s'` the worker hands on these events and then rests. There are `n` in its shard,
    and it may hand on `r` more batches. -/
def Empties (s s' : Scene) (events : List OutboxEvent) (n r : Nat) : Prop :=
  ∃ batches : List Batch, Pass s s' batches (events.map (·.id)) events.length ∧
    batches.flatMap (·.events) = events ∧
    batches.length = batchesFor s.worker.settings.batchSize n r ∧
    s'.Rested (if s.worker.settings.batchSize * r ≤ n then 0
      else s.worker.settings.pollingInterval)

/-- Nothing is left, so the search finds nothing and ends the cycle. -/
theorem empties_none (hs : s.Unhampered) (hb : 0 < s.worker.settings.batchSize) (hr : 0 < r)
    (hwait : s.worker.wait = .polling due cycle) (hdue : due ≤ s.now)
    (hfound : s.outbox.search cycle.assignment s.worker.settings.batchSize = .ok [])
    (hskips : skips.length = turnsFor s.worker.settings.batchSize 0 r) :
    Empties s (s.turns skips) [] 0 r := by
  rw [(counts_zero hb hr).2] at hskips
  rcases List.length_eq_one_iff.mp hskips with ⟨skip, rfl⟩
  have hturns : s.turns [skip] = poll { s with skip } cycle := turn_polling hwait hdue skip
  rcases pass_empty (s := { s with skip }) (hs.skipping skip) hfound with ⟨hpass, hrested⟩
  rw [hturns]
  refine ⟨[], hpass.of_skipping, rfl, (counts_zero hb hr).1.symm, ?_⟩
  rw [if_neg (Nat.not_le.mpr (Nat.mul_pos hb hr))]
  exact hrested

/-- One batch, and the cycle ends with it: the batch is not full, or no other one is allowed. -/
theorem empties_last (hs : s.Unhampered) (hpositive : s.worker.settings.Positive)
    (halone : s.worker.retained = none) (hwait : s.worker.wait = .polling due cycle)
    (hdue : due ≤ s.now) (hleft : s.worker.settings.maxConsecutiveBatches = cycle.batches + r)
    (hfound : s.outbox.search cycle.assignment s.worker.settings.batchSize = .ok events)
    (hne : events ≠ []) (hlen : events.length = min s.worker.settings.batchSize n)
    (hlast : n < s.worker.settings.batchSize ∧ 0 < r ∨ s.worker.settings.batchSize ≤ n ∧ r = 1)
    (hskips : skips.length = turnsFor s.worker.settings.batchSize n r) :
    Empties s (s.turns skips) events n r := by
  have hpos : 0 < n := by
    rw [← List.length_pos_iff] at hne
    omega
  rw [(counts_one hpositive.batchSize hpos hlast).2] at hskips
  rcases exists_four (k := 0) hskips with ⟨k₁, k₂, k₃, k₄, rest, rfl, hrest⟩
  rw [List.eq_nil_of_length_eq_zero hrest, List.append_nil]
  rcases pass_through hs hpositive halone hwait hdue hfound hne k₁ k₂ k₃ k₄ with
    ⟨batch, hbatch, hpass, hpartial, hfull, _⟩
  refine ⟨[batch], hpass, by rw [List.flatMap_singleton, hbatch],
    (counts_one hpositive.batchSize hpos hlast).1.symm, ?_⟩
  -- Either the batch is not full, or it is the last one that is allowed.
  rcases hlast with ⟨hlt, hr⟩ | ⟨hle, hone⟩
  · have := Nat.le_mul_of_pos_right s.worker.settings.batchSize hr
    rw [if_neg (by omega)]
    exact hpartial (by omega)
  · rw [hone, Nat.mul_one, if_pos hle]
    exact hfull (by omega) (by omega)

/-- A full batch, and what the rest of the cycle hands on. -/
theorem Empties.cons {batch : Batch} (hempties : Empties s₁ s'
      (events.drop s.worker.settings.batchSize) (n - s.worker.settings.batchSize) r)
    (hpass : Pass s s₁ [batch] ((events.take s.worker.settings.batchSize).map (·.id))
      (events.take s.worker.settings.batchSize).length)
    (hbatch : batch.events = events.take s.worker.settings.batchSize)
    (hb : 0 < s.worker.settings.batchSize) (hle : s.worker.settings.batchSize ≤ n) :
    Empties s s' events n (r + 1) := by
  rcases hempties with ⟨batches, hpass', hevents, hcount, hrested⟩
  rw [hpass.settings_eq] at hcount hrested
  have hall := hpass.trans hpass'
  rw [← List.map_append, ← List.length_append, List.take_append_drop] at hall
  -- One full batch more is allowed, and its rows are gone from what is left.
  have hbound : s.worker.settings.batchSize * (r + 1) ≤ n ↔
      s.worker.settings.batchSize * r ≤ n - s.worker.settings.batchSize := by
    rw [Nat.mul_succ]
    omega
  refine ⟨batch :: batches, hall, ?_, ?_, ?_⟩
  · rw [List.flatMap_cons, hbatch, hevents, List.take_append_drop]
  · rw [List.length_cons, hcount, (counts_succ hb hle).1]
  · simp only [hbound]
    exact hrested

/-- From a search to the end of its cycle. -/
theorem empties_polling (hs : s.Unhampered) (hpositive : s.worker.settings.Positive)
    (halone : s.worker.retained = none) (hord : s.outbox.Ordered)
    (hwait : s.worker.wait = .polling due cycle) (hdue : due ≤ s.now)
    (hleft : s.worker.settings.maxConsecutiveBatches = cycle.batches + r) (hr : 0 < r)
    (hread : s.outbox.search cycle.assignment (s.worker.settings.batchSize * r) = .ok events)
    (hskips : skips.length =
      turnsFor s.worker.settings.batchSize (s.outbox.pending cycle.assignment).length r) :
    Empties s (s.turns skips) events (s.outbox.pending cycle.assignment).length r := by
  induction r generalizing s cycle due events skips with
  | zero => exact absurd hr (Nat.lt_irrefl 0)
  | succ r ih =>
      have hb := hpositive.batchSize
      have hlen := Outbox.length_search hread
      rw [Nat.mul_succ, Nat.add_comm] at hread
      have hfound := Outbox.search_take hread (Nat.le_add_right _ _)
      have hlen₁ := Outbox.length_search hfound
      generalize hn : (s.outbox.pending cycle.assignment).length = n at hlen hlen₁ hskips ⊢
      rw [Nat.mul_succ] at hlen
      by_cases hempty : events.take s.worker.settings.batchSize = []
      · rw [hempty, List.length_nil] at hlen₁
        have hzero : n = 0 := by omega
        have hnil : events = [] := List.eq_nil_of_length_eq_zero (by omega)
        rw [hempty] at hfound
        subst hzero hnil
        exact empties_none hs hb hr hwait hdue hfound hskips
      · by_cases hend : n < s.worker.settings.batchSize ∨ r = 0
        · have hlast : n < s.worker.settings.batchSize ∧ 0 < r + 1 ∨
              s.worker.settings.batchSize ≤ n ∧ r + 1 = 1 := by omega
          have hall : events.take s.worker.settings.batchSize = events := by
            refine List.take_of_length_le ?_
            rcases hend with hpartial | rfl <;> omega
          rw [hall] at hfound hempty hlen₁
          exact empties_last hs hpositive halone hwait hdue hleft hfound hempty hlen₁ hlast hskips
        · -- The rest of the cycle is that of a cycle over the rest of the shard.
          have hle : s.worker.settings.batchSize ≤ n := by omega
          rw [(counts_succ hb hle).2] at hskips
          rcases exists_four hskips with ⟨k₁, k₂, k₃, k₄, rest, rfl, hrest⟩
          rcases pass_through hs hpositive halone hwait hdue hfound hempty k₁ k₂ k₃ k₄ with
            ⟨batch, hbatch, hpass, _, _, hmore⟩
          have hwait' := hmore (by omega) (by omega)
          have hturns : s.turns ([k₁, k₂, k₃, k₄] ++ rest) =
              (s.turns [k₁, k₂, k₃, k₄]).turns rest := List.foldl_append
          have hs' := hpass.unhampered hs
          rw [hturns]
          generalize s.turns [k₁, k₂, k₃, k₄] = s₁ at hpass hwait' hs' ⊢
          have hrows := Outbox.pending_delete hord hfound
          rw [← hpass.outbox_eq] at hrows
          have hsettings := hpass.settings_eq
          have hread' : s₁.outbox.search cycle.assignment (s₁.worker.settings.batchSize * r) =
              .ok (events.drop s.worker.settings.batchSize) := by
            rw [hsettings, hpass.outbox_eq]
            exact Outbox.search_delete_take hord hread
          have hn' : (s₁.outbox.pending cycle.assignment).length =
              n - s.worker.settings.batchSize := by
            rw [hrows, List.length_drop, hn]
          rw [← hn', ← hsettings] at hrest
          rw [← hsettings] at hpositive hleft
          have hleft' : s₁.worker.settings.maxConsecutiveBatches = cycle.batches + 1 + r := by omega
          have hrests := ih hs' hpositive (hpass.retained_eq.trans halone)
            (hpass.outbox_eq ▸ hord.delete _) hwait' (Nat.le_of_eq hpass.now_eq.symm) hleft'
            (by omega) hread' hrest
          rw [hn'] at hrests
          exact hrests.cons hpass hbatch hb hle

end Rest

/-- A cycle that begins with nothing in its way. -/
theorem pass_beginCycle {s : Scene} (hs : s.Unhampered) (halone : s.worker.retained = none) :
    Pass s s.beginCycle [] [] 0 ∧ s.beginCycle.worker.wait = .polling s.now
      { agentId := s.worker.link.snapshot.agentId
        assignment := s.worker.link.snapshot.assignment } := by
  have hentered := (Pass.refl s).enter (e := .cycleBegan s.stamp) rfl
  have hbegin : s.beginCycle = ((s.enter (.cycleBegan s.stamp)).becomes .polling).await
      (.polling s.now { agentId := s.worker.link.snapshot.agentId
                        assignment := s.worker.link.snapshot.assignment }) := by
    have hdrop : (s.enter (.cycleBegan s.stamp)).dropForeign = s.enter (.cycleBegan s.stamp) := by
      unfold dropForeign
      rw [show (s.enter (.cycleBegan s.stamp)).worker.retained = none from halone]
    have hafter : (s.enter (.cycleBegan s.stamp)).after .find = s.now := hs.after_eq (by simp)
    rw [beginCycle, hdrop]
    dsimp only
    rw [if_pos (show (s.enter (.cycleBegan s.stamp)).canProcess = true from hs.can), nextBatch,
      show (s.enter (.cycleBegan s.stamp)).worker.retained = none from halone, ← hafter]
    rfl
  rw [hbegin]
  exact ⟨(hentered.becomes _).await _, rfl⟩

/-- With nothing in its way, a cycle of a worker that keeps no batch hands on batches that are
    together the first events of its shard, as many as the bound on batches in a row allows,
    deletes exactly these, and counts them. The next cycle comes at once if there were as many
    as that, and after the polling interval if the shard had fewer. What the events are is what
    one search with room for all of them would find. -/
theorem cycle_drains_exactly (settings : Settings) (s : Scene) {events : List OutboxEvent}
    (hvalid : settings.validate = .ok s.worker.settings) (hs : s.Unhampered)
    (halone : s.worker.retained = none) (hord : s.outbox.Ordered)
    (hread : s.outbox.search s.worker.link.snapshot.assignment
      (s.worker.settings.batchSize * s.worker.settings.maxConsecutiveBatches) = .ok events) :
    let b := s.worker.settings.batchSize
    let c := s.worker.settings.maxConsecutiveBatches
    let rows := s.outbox.pending s.worker.link.snapshot.assignment
    let n := rows.length
    ∀ skips : List Nat, skips.length = turnsFor b n c →
      let s' := s.beginCycle.turns skips
      (∃ batches : List Batch, s'.journal.handed = s.journal.handed ++ batches ∧
        batches.length = min ((n + b - 1) / b) c ∧ batches.flatMap (·.events) = events) ∧
      events.map (·.id) = (rows.take (min n (b * c))).map (·.1) ∧
      s'.outbox = s.outbox.delete (events.map (·.id)) ∧
      s'.worker.stats.eventsConsumed = s.worker.stats.eventsConsumed + min n (b * c) ∧
      ∃ wait, s'.Rested wait ∧ (wait = 0 ↔ b * c ≤ n) ∧
        (wait ≠ 0 → wait = s.worker.settings.pollingInterval) := by
  intro b c rows n skips hskips s'
  have hpositive := Settings.positive_of_validate hvalid
  rcases pass_beginCycle hs halone with ⟨hbegun, hwait⟩
  have houtbox : s.beginCycle.outbox = s.outbox := by
    rw [hbegun.outbox_eq, Table.delete_nil]
  have hsettings := hbegun.settings_eq
  have hlen : events.length = min n (b * c) := by
    rw [Outbox.length_search hread, Nat.min_comm]
  rw [← hsettings] at hpositive hread
  rw [← houtbox] at hord hread
  -- From the first search on, all goes by the rows that are left.
  have hbegins := empties_polling (hbegun.unhampered hs) hpositive (hbegun.retained_eq.trans halone)
    hord hwait (Nat.le_of_eq hbegun.now_eq.symm) (Nat.zero_add _).symm
    hpositive.maxConsecutiveBatches hread (by rw [hsettings, houtbox]; exact hskips)
  unfold Empties at hbegins
  rw [hsettings, houtbox] at hbegins
  rcases hbegins with ⟨batches, hpass, hevents, hcount, hrested⟩
  have hall := hbegun.trans hpass
  rw [List.nil_append, List.nil_append, Nat.zero_add] at hall
  refine ⟨⟨batches, hall.handed_eq, hcount, hevents⟩, ?_, hall.outbox_eq, ?_, _, hrested, ?_, ?_⟩
  · rw [houtbox, hsettings] at hread
    rw [Outbox.ids_search hread, Nat.min_comm, ← List.take_take,
      List.take_of_length_le (Nat.le_refl n)]
  · rw [← hlen]
    exact hall.consumed_eq
  · rw [hsettings] at hpositive
    have hpolls := hpositive.pollingInterval
    by_cases hfull : b * c ≤ n
    · exact iff_of_true (if_pos hfull) hfull
    · exact iff_of_false (fun hzero => absurd ((if_neg hfull).symm.trans hzero)
        (Nat.ne_of_gt hpolls)) hfull
  · intro hne
    by_cases hfull : b * c ≤ n
    · exact absurd (if_pos hfull) hne
    · exact if_neg hfull

/-- Settings with two events in a batch and two batches in a row. -/
def pairing : Settings :=
  { processors := { batchSize := 2, maxConsecutiveBatches := 2, transactionTimeout := some 5 } }

/-- The same settings, checked. -/
def paired : Validated :=
  { sharding := .dynamic, pollingInterval := 100, pulseInterval := 2000, pulseExpiration := 30000
    batchSize := 2, transactionTimeout := some 5, retryDelay := 0, maxConsecutiveBatches := 2
    retryPolicy := .unbounded }

/-- A worker that has the first of two shards, and an outbox with five events of that shard and one
    of the other. -/
def settled : Scene :=
  { now := 7, epoch := 0, signal := {}, agents := {}, journal := []
    host := { name := "a", sink := .scripted [{ wallMs := 3 }] {} }
    outbox := ["b", "c", "d", "f", "g", "k"].foldl (fun t key => t.enqueue key []) {}
    worker :=
      { settings := paired, nextPulse := 2000
        link :=
          { name := "a", role := eventProcessorRole, configured := none, expiration := 30000
            selfId := some 1
            snapshot :=
              { agentId := some 1, state := .running, assignment := Assignment.ofNumbers? 2 0
                leaseDeadline := some 30000 } } } }

/-- Of five events in the shard, the two batches that are allowed leave the last one. -/
theorem cycle_drains_exactly_settled :
    let s' := settled.beginCycle.turns [0, 1, 2, 3, 0, 1, 2, 3]
    s'.outbox.ids = [3, 6] ∧ s'.worker.stats.eventsConsumed = 4 ∧ s'.Rested 0 := by
  have hok : (settled.outbox.search settled.worker.link.snapshot.assignment
      (settled.worker.settings.batchSize * settled.worker.settings.maxConsecutiveBatches)).isOk =
        true := by decide +kernel
  have hrows : (settled.outbox.pending settled.worker.link.snapshot.assignment).map (·.1) =
      [1, 2, 4, 5, 6] := by decide +kernel
  have hn : (settled.outbox.pending settled.worker.link.snapshot.assignment).length = 5 := by
    rw [← List.length_map (·.1), hrows]
    rfl
  cases hread : settled.outbox.search settled.worker.link.snapshot.assignment
      (settled.worker.settings.batchSize * settled.worker.settings.maxConsecutiveBatches) with
  | error e =>
      rw [hread] at hok
      cases hok
  | ok events =>
      have hs : settled.Unhampered :=
        ⟨rfl, by decide, rfl, fun _ _ => rfl, fun _ _ => rfl, by simp [settled, Sink.Obliges]⟩
      have hord : settled.outbox.Ordered :=
        Outbox.ordered_enqueueAll ["b", "c", "d", "f", "g", "k"] Table.ordered_empty
      have hturns : 8 = turnsFor settled.worker.settings.batchSize
          (settled.outbox.pending settled.worker.link.snapshot.assignment).length
          settled.worker.settings.maxConsecutiveBatches := by
        rw [hn]
        decide
      have hvalid : pairing.validate = .ok paired := rfl
      have hlaw := cycle_drains_exactly pairing settled hvalid hs rfl hord hread
        [0, 1, 2, 3, 0, 1, 2, 3] hturns
      rcases hlaw with ⟨_, hids, houtbox, hconsumed, wait, hrested, hwait, _⟩
      rw [hn] at hids hconsumed hwait
      rw [List.map_take, hrows] at hids
      rw [hids] at houtbox
      have hzero : wait = 0 := hwait.mpr (by decide)
      subst hzero
      refine ⟨?_, hconsumed, hrested⟩
      rw [houtbox]
      decide +kernel

end Scene

end OutboxCluster
