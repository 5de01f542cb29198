import OutboxCluster.Proofs.Crew
import OutboxCluster.Proofs.Landing

/-!
# What a Turn May Do

Most laws about turns are about what a worker has made sure of before it acts. This one is
about what it may do at all, whatever fails and however long things take. Its link makes
one attempt or none. It asks the outbox for the shard that it has chosen when its cycle
began, which was the shard of its agent, and it hands on the batch that it has chosen
before. And whatever batch it has after the turn, in hand or kept, it had before with the
same events, or it has just found them. Nobody makes up a batch, and nobody adds to one.

What may be entered in the journal is said in terms of what the worker has waited for, so
that an invariant of the worker says at once what is entered.

## Main definitions

* `Link.Acts`: An attempt of a link, or none.
* `Worker.Carries`: A batch that a worker has in hand or keeps.
* `Entry.Due`, `Journal.Grows`: What a worker may enter.
* `Scene.Supplies`: Where a batch comes from.
* `Scene.Does`, `Scene.Conducts`: What a turn may do.
* `Scene.Starts`: A turn that has acted, and leaves the rest to control.

## Theorems

* `Starts.lands`, `Starts.await`: Control after an act, and a wait that follows at once.
* `resume_conducts`: Every turn does no more than that.
-/

namespace OutboxCluster

/-- What a turn does with the link of the worker and with the table: an attempt, or none. -/
inductive Link.Acts (l : Link) (access : Access) (t : AgentTable) : Link → AgentTable → Prop where
  | nothing : Acts l access t l t
  | pulse (moment : Moment) :
      Acts l access t (l.pulse moment access t).link (l.pulse moment access t).table
  | renew (moment : Moment) :
      Acts l access t (l.renew moment access t).link (l.renew moment access t).table
  | leave : Acts l access t (l.leave access t).link (l.leave access t).table

namespace Worker

/-- The batch that the worker has in hand, up to the word that its events were deleted. -/
def carried? (w : Worker) : Option Batch :=
  match w.wait with
  | .applying h | .renewing _ _ _ h | .deleting _ h | .deleted _ _ h => some h.batch
  | _ => none

/-- The worker has the batch in hand, or keeps it. -/
def Carries (w : Worker) (b : Batch) : Prop := w.retained = some b ∨ w.carried? = some b

end Worker

/-- What a worker may enter in its turn: a search for the cycle for which it has waited to
    search, and a batch that it has waited to hand on. -/
def Entry.Due (w : Worker) : Entry → Prop
  | .searched _ _ assignment _ => ∃ due cycle, w.wait = .polling due cycle ∧
    cycle.assignment = assignment
  | .began _ _ batch => ∃ h, w.wait = .applying h ∧ h.batch = batch
  | _ => True

namespace Journal

/-- The journal has grown by what the worker may enter. -/
def Grows (w : Worker) (j j' : Journal) : Prop := ∃ es, j' = es ++ j ∧ ∀ e ∈ es, e.Due w

namespace Grows

variable {w : Worker} {j j' : Journal}

theorem refl (w : Worker) (j : Journal) : Grows w j j :=
  ⟨[], rfl, fun _ h => absurd h List.not_mem_nil⟩

theorem append (h : Grows w j j') {es : List Entry} (hes : ∀ e ∈ es, e.Due w) :
    Grows w j (es ++ j') := by
  rcases h with ⟨es', rfl, hes'⟩
  refine ⟨es ++ es', (List.append_assoc _ _ _).symm, fun e he => ?_⟩
  exact (List.mem_append.mp he).elim (hes e) (hes' e)

theorem cons (h : Grows w j j') {e : Entry} (he : e.Due w) : Grows w j (e :: j') :=
  h.append fun _ hmem => List.mem_singleton.mp hmem ▸ he

/-- Everybody may report. -/
theorem addNotices (h : Grows w j j') (ns : List Notice) : Grows w j (j'.addNotices ns) := by
  refine h.append fun e he => ?_
  rcases List.mem_map.mp (List.mem_reverse.mp he) with ⟨n, _, rfl⟩
  exact trivial

end Grows

end Journal

namespace Scene

/-- Where a batch comes from that a worker has after the turn from `s`: it had the events
    before, for the same shard, or it has just found them. -/
def Supplies (s : Scene) (b : Batch) : Prop :=
  (∃ b₀, s.worker.Carries b₀ ∧ b.events = b₀.events ∧ b.assignment = b₀.assignment) ∨
  (b.events ≠ [] ∧ s.outbox.search b.assignment s.worker.settings.batchSize = .ok b.events)

/-- What has been done from `s` to `s'` to the settings, the link and the tables, and what was
    entered. -/
structure Does (s s' : Scene) : Prop where
  settings_eq : s'.worker.settings = s.worker.settings
  acts : s.worker.link.Acts s.host.access s.agents s'.worker.link s'.agents
  outbox : s'.outbox = s.outbox ∨ ∃ ids, s'.outbox = s.outbox.delete ids
  grows : Journal.Grows s.worker s.journal s'.journal

/-- The turn that has begun with `s` has acted, and has come to `s₁`. -/
structure Starts (s s₁ : Scene) : Prop extends Does s s₁ where
  kept : ∀ b, s₁.worker.retained = some b → s.Supplies b

/-- What the turn from `s` to `s'` has done. -/
structure Conducts (s s' : Scene) : Prop extends Does s s' where
  /-- Who comes to wait for a search runs, and searches for the shard of its agent. -/
  polls : ∀ due cycle, s'.worker.wait = .polling due cycle →
    s'.worker.link.snapshot.state = .running ∧
      cycle.assignment = s'.worker.link.snapshot.assignment
  supplies : ∀ b, s'.worker.Carries b → s.Supplies b

section Turns

variable {s s₁ s' : Scene} {h : Handover} {b : Batch}

theorem supplies_of_carries (hb : s.worker.Carries b) : s.Supplies b := Or.inl ⟨b, hb, rfl, rfl⟩

theorem Starts.refl (s : Scene) : Starts s s where
  settings_eq := rfl
  acts := .nothing
  outbox := Or.inl rfl
  grows := Journal.Grows.refl _ _
  kept := fun _ hb => supplies_of_carries (Or.inl hb)

/-- Something is entered. -/
theorem Starts.enter (hstarts : Starts s s₁) {e : Entry} (he : e.Due s.worker) :
    Starts s (s₁.enter e) :=
  { hstarts with grows := hstarts.grows.cons he }

theorem Starts.note (hstarts : Starts s s₁) (n : Notice) : Starts s (s₁.note n) :=
  hstarts.enter (e := .notice n) trivial

theorem Starts.becomes (hstarts : Starts s s₁) (state : ProcessorState) :
    Starts s (s₁.becomes state) := { hstarts with }

/-- The link makes an attempt, and the next pulse is put off. -/
theorem Starts.attempt (act : Link → Access → AgentTable → Attempt) {e : Entry}
    (he : e.Due s.worker) (hacts : s.worker.link.Acts s.host.access s.agents
      (act s.worker.link s.host.access s.agents).link
      (act s.worker.link s.host.access s.agents).table) (nextPulse : Nat) :
    Starts s { (s.enter e).attempt act with worker.nextPulse := nextPulse } :=
  ⟨⟨rfl, hacts, Or.inl rfl, ((Journal.Grows.refl _ _).cons he).addNotices _⟩,
    (Starts.refl s).kept⟩

/-- A batch that was in hand is to be kept. -/
theorem Starts.retain (hstarts : Starts s s₁) (hhand : s.worker.carried? = some h.batch) :
    Starts s { s₁ with worker.retained := some h.batch.failed } := by
  refine { hstarts with kept := fun b hb => Or.inl ⟨h.batch, Or.inr hhand, ?_⟩ }
  rw [← Option.some.inj hb]
  exact ⟨rfl, rfl⟩

/-- What control has left to be carried was kept before. -/
theorem Lands.carries (hlands : Lands s₁ s') (hb : s'.worker.Carries b) :
    s₁.worker.retained = some b := by
  rcases hb with hkept | hhand
  · rcases hlands.retained with hnone | heq
    · exact nomatch hnone.symm.trans hkept
    · exact heq.symm.trans hkept
  · have hberth := hlands.berth
    unfold Worker.carried? at hhand
    cases hwait : s'.worker.wait with
    | applying h =>
        rw [hwait] at hhand hberth
        rw [← Option.some.inj hhand]
        exact hberth.2.2.2.2.1
    -- No turn lands in a renewal or in a deletion.
    | renewing due started wall h =>
        rw [hwait] at hberth
        exact hberth.elim
    | deleting due h =>
        rw [hwait] at hberth
        exact hberth.elim
    | deleted due count h =>
        rw [hwait] at hberth
        exact hberth.elim
    | _ =>
        rw [hwait] at hhand
        exact nomatch hhand

/-- What control enters everybody may enter. -/
theorem Marks.grows {w : Worker} {who : Stamp} {j j₁ j' : Journal} (h : Marks who j₁ j')
    (hgrows : Journal.Grows w j j₁) : Journal.Grows w j j' := by
  rcases h with ⟨es, rfl, hes⟩
  refine hgrows.append fun e he => ?_
  have hmark := (hes e he).1
  cases e with
  | searched => exact nomatch hmark
  | began => exact nomatch hmark
  | _ => exact trivial

/-- Control after an act. -/
theorem Starts.lands (hstarts : Starts s s₁) (hlands : Lands s₁ s') : Conducts s s' where
  settings_eq := hlands.settings_eq.trans hstarts.settings_eq
  acts := by
    rw [hlands.link_eq, hlands.agents_eq]
    exact hstarts.acts
  outbox := by
    rw [hlands.outbox_eq]
    exact hstarts.outbox
  grows := hlands.marks.grows hstarts.grows
  polls := by
    intro due cycle hwait
    have hberth := hlands.berth
    rw [hwait] at hberth
    rw [hlands.link_eq]
    exact ⟨(Snapshot.canProcess_iff.mp hberth.2.2.2.2).1, hberth.2.2.2.1⟩
  supplies := fun b hb => hstarts.kept b (hlands.carries hb)

/-- A wait that follows at once, for something else than a search. -/
theorem Starts.await (hstarts : Starts s s₁) {wait : Wait}
    (hpolls : ∀ due cycle, wait ≠ .polling due cycle)
    (hhand : ∀ b, ({ s₁.worker with wait } : Worker).carried? = some b → s.Supplies b) :
    Conducts s (s₁.await wait) where
  toDoes := { hstarts.toDoes with }
  polls := fun due cycle heq => absurd heq (hpolls due cycle)
  supplies := fun b hb => hb.elim (hstarts.kept b) (hhand b)

/-- The batch stays in hand. -/
theorem supplies_of_hand (hhand : s.worker.carried? = some h.batch) :
    ∀ b, some h.batch = some b → s.Supplies b :=
  fun _ hb => supplies_of_carries (Or.inr (hhand.trans hb))

theorem conducts_failBatch (hstarts : Starts s s₁) (hhand : s.worker.carried? = some h.batch)
    (halone : s₁.worker.retained = none) (error : CoordinationError) :
    Conducts s (s₁.failBatch h error) :=
  (hstarts.retain hhand).lands (lands_failBatch halone error)

theorem conducts_loseOwnership (hstarts : Starts s s₁) : Conducts s (s₁.loseOwnership h) :=
  (hstarts.note _).lands lands_loseOwnership

/-- The sink is done with a batch. -/
theorem conducts_sinkDone (hstarts : Starts s s₁) (hhand : s.worker.carried? = some h.batch)
    (halone : s₁.worker.retained = none) (ending : Ending) :
    Conducts s (s₁.sinkDone h ending) := by
  have hentered := hstarts.enter (e := .ended s₁.stamp h.batch ending) trivial
  unfold sinkDone
  cases ending with
  | broken => exact hentered.await (fun _ _ => Wait.noConfusion) (fun _ hb => nomatch hb)
  | refused message => exact conducts_failBatch hentered hhand halone _
  | accepted =>
      dsimp only
      split
      · have hasks := hentered.enter
          (e := .deleting s₁.stamp s₁.worker.link.snapshot h.batch) trivial
        exact hasks.await (fun _ _ => Wait.noConfusion) (supplies_of_hand hhand)
      · exact conducts_loseOwnership hentered

/-- The sink is given the batch that was to be handed on. -/
theorem conducts_race (hwait : s.worker.wait = .applying h) (halone : s.worker.retained = none)
    (branches : List Branch) : Conducts s (s.race h branches) := by
  have hhand : s.worker.carried? = some h.batch := by
    rw [Worker.carried?, hwait]
  rcases race_cases s h branches with ⟨s₁, h₁, hasked, hraced⟩
  -- Before a branch is taken, nothing is entered but that the sink is asked.
  have hfirst : Starts s s₁ ∧ s₁.worker = s.worker ∧ h₁.batch = h.batch := by
    cases hasked with
    | before => exact ⟨Starts.refl s, rfl, rfl⟩
    | now _ =>
        have hbegan : Entry.Due s.worker (.began s.stamp s.worker.link.snapshot h.batch) :=
          ⟨h, hwait, rfl⟩
        exact ⟨⟨⟨rfl, .nothing, Or.inl rfl, ((Journal.Grows.refl _ _).cons hbegan).addNotices _⟩,
          (Starts.refl s).kept⟩, rfl, rfl⟩
  rcases hfirst with ⟨hstarts, hworker, hbatch⟩
  rw [← hbatch] at hhand
  rw [← hworker] at halone
  generalize s.race h branches = s' at hraced ⊢
  cases hraced with
  | nothing => exact hstarts.await (fun _ _ => Wait.noConfusion) (supplies_of_hand hhand)
  | sink _ _ => exact conducts_sinkDone hstarts hhand halone _
  | renewal _ => exact hstarts.await (fun _ _ => Wait.noConfusion) (supplies_of_hand hhand)
  | deadline _ => exact conducts_loseOwnership hstarts
  | timeout _ _ => exact conducts_failBatch hstarts hhand halone _

/-- A search is made for the shard of the cycle. -/
theorem conducts_poll {due : Nat} {cycle : Cycle} (hwait : s.worker.wait = .polling due cycle)
    (halone : s.worker.retained = none) : Conducts s (s.poll cycle) := by
  have hstarts : ∀ found, Starts s (s.searched cycle found) := fun _ =>
    ⟨⟨rfl, .nothing, Or.inl rfl, (Journal.Grows.refl _ _).cons ⟨due, cycle, hwait, rfl⟩⟩,
      fun _ hb => nomatch halone.symm.trans hb⟩
  have hbecomes : ∀ found, Starts s ((s.searched cycle found).becomes .applying) := fun found =>
    { hstarts found with }
  rcases poll_cases s cycle with ⟨found, hlands⟩ | ⟨events, hsearch, hne, ⟨_, heq⟩ | ⟨_, heq⟩⟩
  · exact (hstarts found).lands hlands
  · rw [heq]
    refine (hbecomes (some events)).await (fun _ _ => Wait.noConfusion) (fun b hb => Or.inr ?_)
    rw [← Option.some.inj hb]
    exact ⟨hne, hsearch⟩
  · rw [heq]
    exact conducts_loseOwnership (hbecomes (some events))

theorem conducts_renew {due : Nat} {started : Nat} {wall : Int}
    (hwait : s.worker.wait = .renewing due started wall h) (started' : Nat) (wall' : Int) :
    Conducts s (s.renew started' wall' h) := by
  have hhand : s.worker.carried? = some h.batch := by
    rw [Worker.carried?, hwait]
  have hstarts := Starts.attempt (s := s) (fun l => l.renew ⟨started', wall', s.now⟩)
    (e := .renewed s.stamp) trivial (.renew _) (s.now + s.worker.settings.pulseInterval)
  unfold renew
  dsimp only [keepApplying]
  split
  · exact hstarts.await (fun _ _ => Wait.noConfusion) (supplies_of_hand hhand)
  · exact conducts_loseOwnership hstarts

theorem conducts_delete {due : Nat} (hwait : s.worker.wait = .deleting due h)
    (halone : s.worker.retained = none) : Conducts s (s.delete h due) := by
  have hhand : s.worker.carried? = some h.batch := by
    rw [Worker.carried?, hwait]
  unfold delete
  split
  · dsimp only [strike]
    cases hstrike : (s.host.access.faults.strike .deleteEvents).1 with
    | some error =>
        have hstarts : Starts s (s.strike .deleteEvents).2 := { Starts.refl s with }
        exact conducts_failBatch hstarts hhand halone _
    | none =>
        have hstarts : Starts s { (s.strike .deleteEvents).2.enter
              (.deleted s.stamp h.batch.ids (s.outbox.count h.batch.ids)) with
            outbox := s.outbox.delete h.batch.ids } :=
          { (Starts.refl s).enter (e := .deleted s.stamp h.batch.ids (s.outbox.count h.batch.ids))
              trivial with
            outbox := Or.inr ⟨_, rfl⟩ }
        exact hstarts.await (fun _ _ => Wait.noConfusion) (supplies_of_hand hhand)
  · exact conducts_failBatch (Starts.refl s) hhand halone _

theorem conducts_leave (halt : Option Halt) : Conducts s (s.leave halt) := by
  have hstarts : Starts s (s.attempt fun l => l.leave) :=
    ⟨⟨rfl, .leave, Or.inl rfl, (Journal.Grows.refl _ _).addNotices _⟩, (Starts.refl s).kept⟩
  unfold leave finish
  cases halt with
  | none =>
      exact ((hstarts.note _).becomes .stopped).await (fun _ _ => Wait.noConfusion)
        (fun _ hb => nomatch hb)
  | some reason =>
      exact (hstarts.becomes _).await (fun _ _ => Wait.noConfusion) (fun _ hb => nomatch hb)

end Turns

/-- Every turn does no more than that. -/
theorem resume_conducts {bound : Nat} {s : Scene}
    (hsound : s.worker.Sound s.host.name s.journal s.now bound) : Conducts s s.resume := by
  have hwaits := hsound.waits
  unfold Worker.Waits at hwaits
  -- A worker that has not begun or has come to its end does nothing.
  have hidle : (∀ due cycle, s.worker.wait ≠ .polling due cycle) → Conducts s s := fun hpolls =>
    ⟨(Starts.refl s).toDoes, fun due cycle heq => absurd heq (hpolls due cycle),
      fun _ hb => supplies_of_carries hb⟩
  unfold resume
  cases hwait : s.worker.wait with
  | held => exact hidle fun _ _ heq => nomatch hwait.symm.trans heq
  | «over» how => exact hidle fun _ _ heq => nomatch hwait.symm.trans heq
  | launched => exact (Starts.refl s).lands (Rolls.refl s).launch
  | resting wake => exact (Starts.refl s).lands ((Rolls.refl s).wake wake)
  | pulsing due started wall =>
      have hstarts := Starts.attempt (s := s) (fun l => l.pulse ⟨started, wall, s.now⟩)
        (e := .pulsed s.stamp) trivial (.pulse _)
      dsimp only
      rcases s.pulse_cases started wall with ⟨_, heq⟩ | ⟨_, heq⟩
      · rw [heq]
        exact (hstarts s.worker.nextPulse).await (fun _ _ => Wait.noConfusion)
          (fun _ hb => nomatch hb)
      · rw [heq]
        exact (hstarts (s.now + s.worker.settings.pulseInterval)).lands (Rolls.refl _).cycleIfDue
  | polling due cycle =>
      rw [hwait] at hwaits
      exact conducts_poll hwait hwaits.1
  | applying h =>
      rw [hwait] at hwaits
      exact conducts_race hwait hwaits.1.alone _
  | renewing due started wall h => exact conducts_renew hwait started wall
  | deleting due h =>
      rw [hwait] at hwaits
      exact conducts_delete hwait hwaits.alone
  | deleted due count h =>
      rw [hwait] at hwaits
      dsimp only [confirm]
      split
      · have hcounted : Starts s { s with worker.stats.eventsConsumed :=
            s.worker.stats.eventsConsumed + h.batch.events.length } :=
          { Starts.refl s with }
        exact hcounted.lands (lands_completeBatch hwaits.alone hwaits.agent hwaits.shard count)
      · have hhand : s.worker.carried? = some h.batch := by
          rw [Worker.carried?, hwait]
        exact conducts_failBatch (Starts.refl s) hhand hwaits.alone _
  | leaving due halt => exact conducts_leave halt

end Scene

/-- The turn of a worker of a cluster. -/
theorem Cluster.Turned.conducts {bound : Nat} {c c' : Cluster} {node : Node} {worker : Worker}
    {skip : Nat} {others : List (String × Worker)}
    (hturned : Turned bound c c' node worker skip others) (hcustody : c.Custody bound) :
    Scene.Conducts (c.scene node worker skip) (c.scene node worker skip).resume :=
  Scene.resume_conducts (hcustody.sound node hturned.node_mem worker hturned.worker_mem)

end OutboxCluster
