import OutboxCluster.Proofs.Pace

/-!
# No Worker Spins

What a turn may use is turned into what a worker uses in a run. A worker is followed from
event to event. In its turns it pays for what it does out of what it has left, and in between
it has as much left as before: others may take rows away, which leaves it less to do, and only
a request to stop can wake it once more. So the laws of `OutboxCluster.Proofs.Pace` add up
along a run. How often the sink is asked in a cycle is bounded in every run. Cycles, pulses
and turns are bounded as long as time stands still, and cycles and turns only if no rows are
added meanwhile.

A cycle after which the worker does not rest is one that ended with a full batch. That its
sink has accepted this batch and its events are deleted is not seen from the turn in which the
cycle ends. It is what the worker has waited for, so it is on record since its cycle began,
and `Worker.Vouched` keeps that in mind from one turn to the next.

A node may be replaced by another one of the same name, and then the journal tells of two
workers under one name. This is why the counts begin where a worker is found, and the record of
its cycle reaches back to the last one that was begun in its name.

## Main definitions

* `Journal.HasAccepted`, `Journal.HasDeleted`: What has been done with a batch in a cycle.
* `Worker.cycle?`: The cycle that is under way.
* `Worker.Vouched`: What is on record while a worker waits for a deletion.
* `Cluster.Orderly`: The invariant.
* `Cluster.Hurries`, `Cluster.Works`: What a worker uses at one instant, and in a run.

## Theorems

* `cyclesLeft_le`, `turnsLeft_le`: Bounds in terms of the rows.
* `Moves.asks`, `Moves.pulses`, `Moves.hurries`, `Moves.ends`: What a worker uses in an event.
* `works_run`: What it uses in a run.
* `workers_do_not_spin`: All of this, for every worker in every run.
-/

namespace OutboxCluster

theorem Entry.not_counted_of_ne {e : Entry} {who : String × String}
    (h : ∀ stamp ∈ e.stamp?, stamp.post ≠ who) :
    e.isCycle who = false ∧ e.isBeat who = false ∧ e.isAsk who = false := by
  cases e <;> simp_all [stamp?, isCycle, isBeat, isAsk]

namespace Journal

variable {who : String × String} {batch : Batch} {j : Journal} {es : List Entry}

/-- In the cycle that the worker has begun last, its sink has accepted the batch. -/
def HasAccepted (who : String × String) (batch : Batch) (j : Journal) : Prop :=
  ∃ stamp, stamp.post = who ∧ .ended stamp batch .accepted ∈ j.cycle who

/-- In the cycle that the worker has begun last, it has deleted the events of the batch. -/
def HasDeleted (who : String × String) (batch : Batch) (j : Journal) : Prop :=
  ∃ stamp count, stamp.post = who ∧ .deleted stamp batch.ids count ∈ j.cycle who

/-- As long as the worker begins no other cycle, what it has done is on record. -/
theorem mem_cycle_append (hes : ∀ e ∈ es, e.isCycle who = false) {e : Entry}
    (h : e ∈ j.cycle who) : e ∈ cycle who (es ++ j) := by
  rw [cycle_append, if_neg (by simpa using hes)]
  exact List.mem_append_right _ h

theorem HasAccepted.append (h : j.HasAccepted who batch) (hes : ∀ e ∈ es, e.isCycle who = false) :
    HasAccepted who batch (es ++ j) := by
  rcases h with ⟨stamp, hstamp, hmem⟩
  exact ⟨stamp, hstamp, mem_cycle_append hes hmem⟩

theorem HasDeleted.append (h : j.HasDeleted who batch) (hes : ∀ e ∈ es, e.isCycle who = false) :
    HasDeleted who batch (es ++ j) := by
  rcases h with ⟨stamp, count, hstamp, hmem⟩
  exact ⟨stamp, count, hstamp, mem_cycle_append hes hmem⟩

end Journal

namespace Worker

variable {w : Worker} {now : Nat} {t t' : Outbox} {σ : Signal}

/-- The cycle that is under way. -/
def cycle? (w : Worker) : Option Cycle :=
  match w.wait with
  | .polling _ cycle => some cycle
  | .applying h | .renewing _ _ _ h | .deleting _ h | .deleted _ _ h => some h.cycle
  | _ => none

/-- While a worker waits for a deletion, and then to hear of it, what it has done is on record. -/
def Vouched (w : Worker) (who : String × String) (j : Journal) : Prop :=
  match w.wait with
  | .deleting _ h => j.HasAccepted who h.batch
  | .deleted _ _ h => j.HasAccepted who h.batch ∧ j.HasDeleted who h.batch
  | _ => True

theorem asksLeft_of_cycle? (h : w.cycle? = none) : w.asksLeft = 0 := by
  unfold cycle? at h
  unfold asksLeft
  cases hwait : w.wait with
  | polling | applying | renewing | deleting | deleted =>
      rw [hwait] at h
      cases h
  | _ => rfl

variable (w now t)

theorem credit_le : w.credit t ≤ w.loads t + 1 := by
  unfold credit
  split <;> omega

/-- At one instant there is one cycle for every full batch, and there are two more: one for the
    batch that is kept, and one for what does not make up a full batch. The cycle that is under
    way is one of them. -/
theorem cyclesLeft_le :
    w.cyclesLeft now t + (if w.cycle?.isSome then 1 else 0) ≤ w.loads t + 2 := by
  have hcredit := w.credit_le t
  unfold cyclesLeft cycle?
  -- A cycle that goes on has paid for itself, so what is left is one less.
  cases hwait : w.wait with
  | applying h | renewing due started wall h | deleting due h =>
      have hafter := w.cyclesAfter_le t h.batch.ids h.batch
      simp only [Option.isSome_some, if_true]
      omega
  | deleted due count h =>
      simp only [Option.isSome_some, if_true, cyclesAfter]
      split <;> omega
  | resting | pulsing =>
      simp only [Option.isSome_none, Bool.false_eq_true, if_false, cyclesDue]
      split <;> omega
  | _ =>
      simp only [Option.isSome_none, Option.isSome_some, Bool.false_eq_true, if_false, if_true]
      omega

theorem pulsesLeft_le : w.pulsesLeft now ≤ 1 := by
  have hdue : w.pulsesDue now ≤ 1 := by
    unfold pulsesDue
    split <;> omega
  unfold pulsesLeft
  split <;> omega

theorem turnsLeft_le (σ : Signal) : w.turnsLeft now t σ ≤ 8 * w.loads t + 33 := by
  have hcycles := w.cyclesLeft_le now t
  have hpulses := w.pulsesLeft_le now
  have hrank : w.rank ≤ 8 := by
    unfold rank
    split <;> first | omega | split <;> omega
  have hunseen : w.unseen σ ≤ 1 := by
    unfold unseen
    split <;> omega
  unfold turnsLeft
  omega

variable {now t}

/-- With fewer rows there is less to do. -/
theorem cyclesLeft_mono (h : t'.rows.Sublist t.rows) :
    w.cyclesLeft now t' ≤ w.cyclesLeft now t := by
  have hloads : w.loads t' ≤ w.loads t := w.loads_mono h.length_le
  have hdeleted : ∀ ids, w.loads (t'.delete ids) ≤ w.loads (t.delete ids) :=
    fun ids => w.loads_mono (h.filter _).length_le
  have hafter : ∀ (t t' : Outbox) (batch : Batch), w.loads t' ≤ w.loads t →
      w.cyclesAfter t' batch ≤ w.cyclesAfter t batch := by
    intro t t' batch hle
    unfold cyclesAfter
    split <;> omega
  have hcredit : w.credit t' ≤ w.credit t := Nat.add_le_add_right hloads _
  unfold cyclesLeft
  cases hwait : w.wait with
  | polling => exact hloads
  | applying | renewing | deleting => exact hafter _ _ _ (hdeleted _)
  | deleted => exact hafter _ _ _ hloads
  | resting | pulsing =>
      dsimp only [cyclesDue]
      split <;> omega
  | held | launched => exact Nat.add_le_add_left hcredit _
  | _ => exact Nat.le_refl _

end Worker

namespace Scene

variable {s : Scene} {h : Handover} {due count : Nat}

/-- Who waits to hear of a deletion has just made it. -/
theorem deleted_of_resume {bound : Nat}
    (hsound : s.worker.Sound s.host.name s.journal s.now bound)
    (hwait : s.resume.worker.wait = .deleted due count h) :
    ∃ before, s.worker.wait = .deleting before h ∧
      s.resume.journal = .deleted s.stamp h.batch.ids count :: s.journal := by
  rcases outcome_of_resume hsound (by rw [hwait]; rfl) with
    ⟨how, hover, hsame⟩ | ⟨_, _, _, _, _, hbroken⟩ | ⟨before, _, _, h', hbefore, heq, hjournal⟩
  · rw [hsame] at hwait
    cases hover.symm.trans hwait
  · cases hbroken.symm.trans hwait
  · obtain ⟨-, rfl, rfl⟩ := Wait.deleted.inj (heq.symm.trans hwait)
    exact ⟨before, hbefore, hjournal⟩

/-- What a worker has done for a deletion is on record after each of its turns. -/
theorem resume_vouched {bound : Nat} (hsound : s.worker.Sound s.host.name s.journal s.now bound)
    (hvouched : s.worker.Vouched s.stamp.post s.journal) :
    s.resume.worker.Vouched s.stamp.post s.resume.journal := by
  unfold Worker.Vouched
  cases hwait : s.resume.worker.wait with
  | deleting due h =>
      rcases (resume_traced hsound).asks due h hwait with ⟨snapshot, earlier, heq⟩
      rw [heq]
      exact ⟨s.stamp, rfl, List.mem_cons_of_mem _ List.mem_cons_self⟩
  | deleted due count h =>
      rcases deleted_of_resume hsound hwait with ⟨before, hbefore, heq⟩
      rw [Worker.Vouched, hbefore] at hvouched
      have haccepted : Journal.HasAccepted s.stamp.post h.batch
          ([.deleted s.stamp h.batch.ids count] ++ s.journal) :=
        hvouched.append fun e he => List.mem_singleton.mp he ▸ rfl
      rw [heq]
      exact ⟨haccepted, s.stamp, count, rfl, List.mem_cons_self⟩
  | _ => exact trivial

end Scene

/-- Until its turn a worker has as much left as before. -/
theorem Shifted.left_eq {Ends : String → Prop} {name : String} {w w' : Worker}
    (h : Shifted Ends (name, w) (name, w')) (hstays : ¬ Ends name) :
    w'.asksLeft = w.asksLeft ∧ w'.cyclesLeft = w.cyclesLeft ∧ w'.pulsesLeft = w.pulsesLeft ∧
      w'.turnsLeft = w.turnsLeft := by
  cases h with
  | same => exact ⟨rfl, rfl, rfl, rfl⟩
  | ended hends => exact absurd hends hstays
  | started hheld =>
      unfold Worker.turnsLeft Worker.asksLeft Worker.cyclesLeft Worker.pulsesLeft Worker.rank
      rw [hheld]
      exact ⟨rfl, rfl, rfl, rfl⟩

namespace Cluster

variable {bound : Nat} {c c' c'' : Cluster} {e : Event} {name : String} {node node' : Node}
  {w w' w'' : Worker} {events : List Event} {who : String × String}

/-- Somebody makes the request to stop, or takes it back. -/
def Event.calls (name : String) : Event → Bool
  | .send node _ | .drain node => node == name
  | _ => false

/-- There is a request that the worker has not seen only because somebody has made one. -/
theorem Event.Signals.unseen_le {σ σ' : Signal} (h : e.Signals name σ σ') (w : Worker) :
    w.unseen σ' ≤ w.unseen σ + if e.calls name then 1 else 0 := by
  have hle : ∀ σ, w.unseen σ ≤ 1 := by
    intro σ
    unfold Worker.unseen
    split <;> omega
  cases h with
  | same | drop => exact Nat.le_add_right _ _
  | send | drain =>
      simp only [calls, beq_self_eq_true, if_true]
      exact (hle _).trans (Nat.le_add_left _ _)

/-- All that is known of a cluster whatever happens to it. -/
structure Orderly (bound : Nat) (c : Cluster) : Prop where
  distinct : c.Distinct
  custody : c.Custody bound
  checked : c.Checked
  poised : ∀ node ∈ c.nodes, ∀ w ∈ node.body.workers, w.Poised
  vouched : ∀ node ∈ c.nodes, ∀ w ∈ node.body.workers,
    w.Vouched (post (node.host.name, w)) c.journal

theorem lasting_poised : Lasting fun _ w => w.Poised where
  fresh := by
    intro w hfresh
    unfold Worker.Poised
    rcases hfresh.waits with hwait | hwait <;> rw [hwait] <;> trivial
  send := fun _ _ _ h => h
  drop := fun _ _ h => h
  started := fun _ _ _ _ => trivial
  ended := fun _ _ _ => trivial
  turn := by
    intro bound s settings hsound hvalid hdue hpoised
    rcases Scene.resume_fits (Settings.positive_of_validate hvalid) hsound hpoised hdue
      with ⟨turns, _, hfits⟩
    exact hfits.poised

theorem suffix_perform (h : c.Orderly bound) (hopens : c.OpensWithin bound) (e : Event) :
    (c.perform e).2.journal = c.entered e ++ c.journal := by
  rcases suffix_step h.distinct h.custody hopens e with ⟨es, heq⟩
  rw [entered, ← heq, Journal.since_append]

/-- No event but one that adds rows does so. -/
theorem rows_step (h : c.Orderly bound) (hopens : c.OpensWithin bound)
    (hnone : ∀ keys, e ≠ .enqueue keys) :
    (c.perform e).2.outbox.rows.Sublist c.outbox.rows := by
  rcases step_cases h.distinct h.custody hopens e with hout | ⟨node, worker, skip, others, hturned⟩
  · rw [hout.outbox_eq]
    cases e with
    | enqueue keys => exact absurd rfl (hnone keys)
    | deleteEvents ids => exact List.filter_sublist
    | _ => exact List.Sublist.refl _
  · rw [hturned.outbox_eq]
    rcases (hturned.conducts h.custody).outbox with heq | ⟨ids, heq⟩ <;> rw [heq]
    · exact List.Sublist.refl _
    · exact List.filter_sublist

theorem now_le_step (h : c.Orderly bound) (hopens : c.OpensWithin bound) (e : Event) :
    c.now ≤ (c.perform e).2.now := by
  rcases step_cases h.distinct h.custody hopens e with hout | ⟨node, worker, skip, others, hturned⟩
  · rcases hout.now_cases with heq | ⟨_, heq⟩ <;> omega
  · exact Nat.le_of_eq hturned.now_eq.symm

theorem Moves.vouched (h : c.Orderly bound) (hopens : c.OpensWithin bound) (hnode : node ∈ c.nodes)
    (hw : w ∈ node.body.workers) (hmoves : Moves bound c e node w w') :
    w'.Vouched (post (node.host.name, w')) (c.perform e).2.journal := by
  have hpost : post (node.host.name, w') = post (node.host.name, w) :=
    congrArg (Prod.mk node.host.name) hmoves.name_eq
  have hvouched := h.vouched node hnode w hw
  rw [hpost]
  cases hmoves with
  | turn hturned _ _ _ =>
      rw [hturned.journal_eq]
      exact Scene.resume_vouched (h.custody.sound node hnode w hw) hvouched
  | between hshifted hnot _ =>
      have hcycle : ∀ x ∈ c.entered e, x.isCycle (post (node.host.name, w)) = false :=
        fun x hx => (Entry.not_counted_of_ne (hnot x hx)).1
      rw [suffix_perform h hopens e]
      cases hshifted with
      | started _ => exact trivial
      | ended _ => exact trivial
      | same =>
          -- Nothing that was entered in between begins a cycle of this worker.
          unfold Worker.Vouched at hvouched ⊢
          cases hwait : w.wait with
          | deleting due h' =>
              rw [hwait] at hvouched
              exact hvouched.append hcycle
          | deleted due count h' =>
              rw [hwait] at hvouched
              exact ⟨hvouched.1.append hcycle, hvouched.2.append hcycle⟩
          | _ => exact trivial

theorem orderly_init (bound : Nat) (epoch : Int) (agents : AgentTable) (outbox : Outbox) :
    ({ epoch, agents, outbox } : Cluster).Orderly bound where
  distinct := distinct_init epoch agents outbox
  custody := custody_init bound epoch agents outbox
  checked := fun _ hp => absurd hp List.not_mem_nil
  poised := fun _ hnode => absurd hnode List.not_mem_nil
  vouched := fun _ hnode => absurd hnode List.not_mem_nil

theorem orderly_step (h : c.Orderly bound) (hopens : c.OpensWithin bound) (e : Event) :
    (c.perform e).2.Orderly bound where
  distinct := distinct_step h.distinct h.custody hopens e
  custody := custody_step h.custody hopens e
  checked := checked_step h.checked h.distinct h.custody hopens e
  poised := lasting_poised.step h.distinct h.checked h.custody hopens h.poised
  vouched := by
    intro node' hnode' w' hw'
    rcases origin_step h.distinct h.custody hopens hnode' hw'
      with hfresh | ⟨node, hnode, w, hw, hname, _, hmoves⟩
    · unfold Worker.Vouched
      rcases (hfresh.workers w' hw').waits with hwait | hwait <;> rw [hwait] <;> trivial
    · rw [hname]
      exact hmoves.vouched h hopens hnode hw

theorem orderly_run (h : c.Orderly bound) (hopens : Always (OpensWithin bound) c events) :
    (c.run events).Orderly bound := by
  induction events generalizing c with
  | nil => exact h
  | cons e events ih => exact ih (orderly_step h hopens.1 e) hopens.2

theorem now_le_run (h : c.Orderly bound) (hopens : Always (OpensWithin bound) c events) :
    c.now ≤ (c.run events).now := by
  induction events generalizing c with
  | nil => exact Nat.le_refl _
  | cons e events ih =>
      exact (now_le_step h hopens.1 e).trans (ih (orderly_step h hopens.1 e) hopens.2)

/-- From `c` to `c'`, at one instant and without new rows, a worker uses no more than it had left.
    Each request to stop may wake it once more. -/
structure Hurries (c c' : Cluster) (who : String × String) (σ σ' : Signal) (w w' : Worker)
    (turns calls : Nat) : Prop where
  cycles : c'.journal.countP (·.isCycle who) + w'.cyclesLeft c'.now c'.outbox ≤
    c.journal.countP (·.isCycle who) + w.cyclesLeft c.now c.outbox
  turns : turns + w'.turnsLeft c'.now c'.outbox σ' ≤ w.turnsLeft c.now c.outbox σ + calls

theorem Hurries.refl (c : Cluster) (who : String × String) (σ : Signal) (w : Worker) :
    Hurries c c who σ σ w w 0 0 :=
  ⟨Nat.le_refl _, by omega⟩

theorem Hurries.trans {σ σ' σ'' : Signal} {turns calls turns' calls' : Nat}
    (h : Hurries c c' who σ σ' w w' turns calls)
    (h' : Hurries c' c'' who σ' σ'' w' w'' turns' calls') :
    Hurries c c'' who σ σ'' w w'' (turns + turns') (calls + calls') where
  cycles := h'.cycles.trans h.cycles
  turns := by
    have hfirst := h.turns
    have hsecond := h'.turns
    omega

section Steps

variable (h : c.Orderly bound) (hopens : c.OpensWithin bound) (hnode : node ∈ c.nodes)
  (hw : w ∈ node.body.workers) (hmoves : Moves bound c e node w w')

include h hnode hw

theorem positive_of_mem : w.settings.Positive := by
  rcases h.checked _ (mem_crew_of_mem hnode hw) with ⟨settings, hvalid⟩
  exact Settings.positive_of_validate hvalid

/-- A turn, in terms of the cluster. -/
theorem fits_turn (skip : Nat) {due : Nat} (hdue : w.dueAt node.body.signal = some due)
    (hle : due ≤ c.now) :
    ∃ turns < w.turnsLeft c.now c.outbox node.body.signal,
      Scene.Fits (post (node.host.name, w)) w.settings.maxConsecutiveBatches node.body.signal
        (c.scene node w skip) (c.scene node w skip).resume (w.cyclesLeft c.now c.outbox)
        (w.pulsesLeft c.now) turns w.asksLeft fun w' n => w.Closes c.now w' n :=
  Scene.resume_fits (s := c.scene node w skip) (positive_of_mem h hnode hw)
    (h.custody.sound node hnode w hw) (h.poised node hnode w hw) ⟨due, hdue, hle⟩

include hopens hmoves

/-- Whatever happens, a worker asks its sink no more often in a cycle than it may. -/
theorem Moves.asks (hstays : ¬ e.Ends node.host.name) :
    Journal.Spends (post (node.host.name, w)) w.settings.maxConsecutiveBatches
      c.journal (c.perform e).2.journal w.asksLeft w'.asksLeft := by
  cases hmoves with
  | turn hturned hdue hle _ =>
      rcases fits_turn h hnode hw _ hdue hle with ⟨turns, _, hfits⟩
      rw [hturned.journal_eq]
      exact hfits.asks
  | between hshifted hnot _ =>
      rw [(hshifted.left_eq hstays).1]
      refine .of_adds ⟨_, suffix_perform h hopens e, hnot⟩ fun x hx => ?_
      have hcounted := Entry.not_counted_of_ne hx
      exact ⟨hcounted.1, hcounted.2.2⟩

/-- As long as time stands still, there is one pulse or renewal at most. -/
theorem Moves.pulses (hstays : ¬ e.Ends node.host.name) (hnow : (c.perform e).2.now = c.now) :
    (c.perform e).2.journal.countP (·.isBeat (post (node.host.name, w))) +
        w'.pulsesLeft (c.perform e).2.now ≤
      c.journal.countP (·.isBeat (post (node.host.name, w))) + w.pulsesLeft c.now := by
  cases hmoves with
  | @turn skip due others hturned hdue hle htakes =>
      rcases fits_turn h hnode hw skip hdue hle with ⟨turns, hlt, hfits⟩
      have hpulses := hfits.pulses
      rw [show (c.scene node w skip).resume.now = c.now from hturned.settles.follows.now_eq]
        at hpulses
      rw [hturned.journal_eq, hnow]
      exact hpulses
  | between hshifted hnot htakes =>
      have hadds : Journal.Adds _ c.journal (c.perform e).2.journal :=
        ⟨_, suffix_perform h hopens e, hnot⟩
      rw [hadds.countP_eq fun _ hx => (Entry.not_counted_of_ne hx).2.1,
        (hshifted.left_eq hstays).2.2.1, hnow]

/-- If moreover nothing is added, a worker uses no more than it had left. -/
theorem Moves.hurries {σ : Signal} (hsignals : e.Signals node.host.name node.body.signal σ)
    (hstays : ¬ e.Ends node.host.name) (hnone : ∀ keys, e ≠ .enqueue keys)
    (hnow : (c.perform e).2.now = c.now) :
    Hurries c (c.perform e).2 (post (node.host.name, w)) node.body.signal σ w w'
      (if c.takes (post (node.host.name, w)) e then 1 else 0)
      (if e.calls node.host.name then 1 else 0) := by
  cases hmoves with
  | @turn skip due others hturned hdue hle htakes =>
      rcases fits_turn h hnode hw skip hdue hle with ⟨turns, hlt, hfits⟩
      have hsame : σ = node.body.signal := by
        cases hsignals with
        | same => rfl
        | send | drop | drain => cases htakes
      have hturns := hfits.turns
      have hcycles := hfits.cycles
      rw [show (c.scene node w skip).resume.now = c.now from hturned.settles.follows.now_eq]
        at hturns hcycles
      refine ⟨?_, ?_⟩
      · rw [hturned.journal_eq, hturned.outbox_eq, hnow]
        exact hcycles
      · rw [hturned.outbox_eq, hnow, hsame, if_pos htakes]
        omega
  | between hshifted hnot htakes =>
      have hunseen := hsignals.unseen_le w
      -- No row is new, so there is no more left to do than before.
      have hless : w.cyclesLeft c.now (c.perform e).2.outbox ≤ w.cyclesLeft c.now c.outbox :=
        w.cyclesLeft_mono (rows_step h hopens hnone)
      have hadds : Journal.Adds _ c.journal (c.perform e).2.journal :=
        ⟨_, suffix_perform h hopens e, hnot⟩
      rcases hshifted.left_eq hstays with ⟨_, hcycles, _, hturns⟩
      refine ⟨?_, ?_⟩
      · rw [hadds.countP_eq fun _ hx => (Entry.not_counted_of_ne hx).1, hcycles, hnow]
        exact Nat.add_le_add_left hless _
      · rw [htakes, hturns, hnow]
        unfold Worker.turnsLeft
        simp only [Bool.false_eq_true, if_false]
        omega

omit hopens in
/-- When a cycle ends, the next one begins some time later, unless its last batch was a full one
    that was accepted and deleted in it. -/
theorem Moves.ends {stamp : Stamp} {wait : Nat} (hstamp : stamp.post = post (node.host.name, w))
    (hended : .cycleEnded stamp wait ∈ c.entered e) :
    w'.nextCycle = c.now + wait ∧ w.Closes c.now w' wait ∧
      (∀ n, w.Pauses c.now w' n → 0 < wait) ∧
      (wait = 0 → ∃ batch, w.Completes c.now batch w' ∧
        c.journal.HasAccepted (post (node.host.name, w)) batch ∧
        c.journal.HasDeleted (post (node.host.name, w)) batch) := by
  cases hmoves with
  | between _ hnot _ => exact absurd hstamp (hnot _ hended stamp rfl)
  | @turn skip due others hturned hdue hle _ =>
      rcases fits_turn h hnode hw skip hdue hle with ⟨turns, _, hfits⟩
      rcases hfits.ends with ⟨es, hes, hcloses⟩
      rw [hturned.entered_eq hes] at hended
      rcases hcloses _ hended stamp wait rfl with ⟨hnext, hcloses⟩
      rw [show (c.scene node w skip).resume.now = c.now from hturned.settles.follows.now_eq]
        at hnext
      rcases hcloses.outcome (positive_of_mem h hnode hw) with ⟨hpauses, hzero⟩
      refine ⟨hnext, hcloses, hpauses, fun hnone => ?_⟩
      -- The batch is the one of which the worker has waited to hear, so it is on record.
      rcases hzero hnone with ⟨_, due, count, h', hwait, rfl, hrest⟩
      have hvouched := h.vouched node hnode w hw
      rw [Worker.Vouched, hwait] at hvouched
      exact ⟨h'.batch, ⟨due, count, h', hwait, rfl, hrest⟩, hvouched⟩

end Steps

/-- What a worker uses in a run. -/
structure Works (c c' : Cluster) (events : List Event) (node : Node) (w : Worker)
    (node' : Node) (w' : Worker) : Prop where
  node_eq : node'.host.name = node.host.name
  name_eq : w'.name = w.name
  settings_eq : w'.settings = w.settings
  asks : Journal.Spends (post (node.host.name, w)) w.settings.maxConsecutiveBatches
    c.journal c'.journal w.asksLeft w'.asksLeft
  pulses : c'.now = c.now → c'.journal.countP (·.isBeat (post (node.host.name, w))) +
      w'.pulsesLeft c'.now ≤
    c.journal.countP (·.isBeat (post (node.host.name, w))) + w.pulsesLeft c.now
  hurries : c'.now = c.now → (∀ keys, .enqueue keys ∉ events) →
    Hurries c c' (post (node.host.name, w)) node.body.signal node'.body.signal w w'
      (c.turnsOf (post (node.host.name, w)) events) (events.countP (·.calls node.host.name))

/-- What a worker uses in any run. -/
theorem works_run (h : c.Orderly bound) (hopens : Always (OpensWithin bound) c events)
    (hnode : node ∈ c.nodes) (hw : w ∈ node.body.workers)
    (hstays : ∀ e ∈ events, ¬ e.Ends node.host.name) :
    ∃ node' ∈ (c.run events).nodes, ∃ w' ∈ node'.body.workers,
      Works c (c.run events) events node w node' w' := by
  induction events generalizing c node w with
  | nil =>
      refine ⟨node, hnode, w, hw, rfl, rfl, rfl, .refl (Nat.le_refl _), fun _ => Nat.le_refl _,
        fun _ _ => Hurries.refl _ _ _ _⟩
  | cons e events ih =>
      have hnext := orderly_step h hopens.1 e
      have hfirst := hstays e List.mem_cons_self
      rcases followed_step h.distinct h.custody hopens.1 hnode hw hfirst
        with ⟨node₁, hnode₁, w₁, hw₁, hname₁, hsignals, hmoves⟩
      have hpost : post (node₁.host.name, w₁) = post (node.host.name, w) :=
        Prod.ext hname₁ hmoves.name_eq
      have hsettings := hmoves.settings_eq h.custody
      rcases ih hnext hopens.2 hnode₁ hw₁ fun e' he' hends =>
        hstays e' (List.mem_cons_of_mem _ he') (hname₁ ▸ hends)
        with ⟨node', hnode', w', hw', hworks⟩
      refine ⟨node', hnode', w', hw', hworks.node_eq.trans hname₁,
        hworks.name_eq.trans hmoves.name_eq, hworks.settings_eq.trans hsettings, ?_, ?_, ?_⟩
      · have hrest := hworks.asks
        rw [hpost, hsettings] at hrest
        exact (hmoves.asks h hopens.1 hnode hw hfirst).trans hrest
      all_goals
        intro hnow
        -- Time does not go back, so it stands still in both parts of the run.
        have hle := now_le_step h hopens.1 e
        have hle' := now_le_run hnext hopens.2
        have hnow₁ : (c.perform e).2.now = c.now := by
          have hlast : ((c.perform e).2.run events).now = c.now := hnow
          omega
        have hnow' : ((c.perform e).2.run events).now = (c.perform e).2.now := hnow.trans hnow₁.symm
      · have hrest := hworks.pulses hnow'
        rw [hpost] at hrest
        exact hrest.trans (hmoves.pulses h hopens.1 hnode hw hfirst hnow₁)
      · intro hnone
        have hrest := hworks.hurries hnow' fun keys hmem => hnone keys (List.mem_cons_of_mem _ hmem)
        rw [hpost, hname₁] at hrest
        have hstep := hmoves.hurries h hopens.1 hnode hw hsignals hfirst
          (fun keys heq => hnone keys (heq ▸ List.mem_cons_self)) hnow₁
        rw [List.countP_cons, Nat.add_comm]
        exact hstep.trans hrest

/-- Whatever happens in a run, no worker spins. In a cycle it asks its sink as often as it may hand
    on batches in a row at most. A cycle ends because nothing was found, the batch was not full,
    it has failed or is lost, or the agent may not process, and the next one comes some time
    later. Only when the cycle ends as the worker hears that the events of a full batch were
    deleted, the next one may come at once, and the sink has accepted that batch in the cycle. As
    long as time stands still the worker makes one pulse or renewal at most. If moreover no rows
    are added, it runs one cycle for every full batch that they make up, and two more at most, and
    it comes to the end of its turns. -/
theorem workers_do_not_spin (epoch : Int) (agents : AgentTable) (outbox : Outbox)
    (before later : List Event) {c : Cluster} {node : Node} {w : Worker}
    (hrun : c = ({ epoch, agents, outbox } : Cluster).run before) (hnode : node ∈ c.nodes)
    (hw : w ∈ node.body.workers) (hstays : ∀ e ∈ later, ¬ e.Ends node.host.name) :
    ∃ node' ∈ (c.run later).nodes, ∃ w' ∈ node'.body.workers,
      node'.host.name = node.host.name ∧ w'.name = w.name ∧ w'.settings = w.settings ∧
      (w.cycle? = none →
        Journal.asks (post (node.host.name, w)) ((c.run later).journal.since c.journal) ≤
          w.settings.maxConsecutiveBatches) ∧
      (∀ e stamp wait, ¬ e.Ends node.host.name → stamp.post = post (node.host.name, w) →
        .cycleEnded stamp wait ∈ (c.run later).entered e →
        ∃ after, (node.host.name, after) ∈ ((c.run later).perform e).2.crew ∧
          after.name = w.name ∧ after.nextCycle = (c.run later).now + wait ∧
          w'.Closes (c.run later).now after wait ∧
          (∀ n, w'.Pauses (c.run later).now after n → 0 < wait) ∧
          (wait = 0 → ∃ batch, w'.Completes (c.run later).now batch after ∧
            (c.run later).journal.HasAccepted (post (node.host.name, w)) batch ∧
            (c.run later).journal.HasDeleted (post (node.host.name, w)) batch)) ∧
      ((c.run later).now = c.now →
        ((c.run later).journal.since c.journal).countP
          (·.isBeat (post (node.host.name, w))) ≤ 1 ∧
        ((∀ keys, .enqueue keys ∉ later) →
          ((c.run later).journal.since c.journal).countP
              (·.isCycle (post (node.host.name, w))) + (if w.cycle?.isSome then 1 else 0) ≤
            c.outbox.rows.length / w.settings.batchSize + 2 ∧
          c.turnsOf (post (node.host.name, w)) later ≤
            8 * (c.outbox.rows.length / w.settings.batchSize) + 33 +
              later.countP (·.calls node.host.name))) := by
  rcases exists_always_opensWithin { epoch, agents, outbox } (before ++ later)
    with ⟨bound, hopens⟩
  rcases hopens.append with ⟨hbefore, hopens⟩
  have horderly := orderly_run (orderly_init bound epoch agents outbox) hbefore
  rw [← hrun] at hopens horderly
  have horderly' := orderly_run horderly hopens
  rcases works_run horderly hopens hnode hw hstays with ⟨node', hnode', w', hw', hworks⟩
  have hpost : post (node'.host.name, w') = post (node.host.name, w) :=
    Prod.ext hworks.node_eq hworks.name_eq
  refine ⟨node', hnode', w', hw', hworks.node_eq, hworks.name_eq, hworks.settings_eq, ?_, ?_, ?_⟩
  · intro hidle
    have hasks := hworks.asks
    rw [Worker.asksLeft_of_cycle? hidle] at hasks
    rcases hasks.asks_le with ⟨es, heq, hle⟩
    rw [heq, Journal.since_append]
    exact hle
  · intro e stamp wait hends hstamp hended
    rw [← hworks.node_eq] at hends
    -- An end of a cycle is entered in a turn of the worker itself.
    rcases followed_step horderly'.distinct horderly'.custody hopens.last hnode' hw' hends
      with ⟨node₂, hnode₂, after, hafter, hname₂, _, hmoves⟩
    rcases hmoves.ends horderly' hnode' hw' (hstamp.trans hpost.symm) hended
      with ⟨hnext, hcloses⟩
    rw [hpost] at hcloses
    refine ⟨after, ?_, hmoves.name_eq.trans hworks.name_eq, hnext, hcloses⟩
    rw [← hworks.node_eq, ← hname₂]
    exact mem_crew_of_mem hnode₂ hafter
  · intro hnow
    rcases hworks.asks with ⟨es, heq, _⟩
    have hpulses := hworks.pulses hnow
    have hfew := w.pulsesLeft_le c.now
    rw [heq, List.countP_append] at hpulses
    rw [heq, Journal.since_append]
    refine ⟨by omega, fun hnone => ?_⟩
    -- Every cycle and every turn is taken from what was left to do at the start.
    have hhurries := hworks.hurries hnow hnone
    have hcycles := hhurries.cycles
    have hmost := w.cyclesLeft_le c.now c.outbox
    have hturns := hhurries.turns
    have hmore := w.turnsLeft_le c.now c.outbox node.body.signal
    rw [heq, List.countP_append] at hcycles
    rw [show c.outbox.rows.length / w.settings.batchSize = w.loads c.outbox from rfl]
    exact ⟨by omega, by omega⟩

/-- A worker that hands on one event in a cycle, and three of them. -/
def loading : List Event :=
  [.addSingle { name := "n", sink := .reporting }
      { processors := { batchSize := 1, maxConsecutiveBatches := 1 } } "w"
      (Assignment.ofNumbers? 1 0),
    .enqueue ["a", "b", "c"], .start "n"]

def laden : Cluster := ({ epoch := 0 } : Cluster).run loading

/-- It pulses and hands on the first one. -/
def unloading : List Event :=
  [.turn 0 0, .turn 0 0, .turn 0 0, .turn 0 0, .turn 0 0]

/-- In the next turn the cycle ends, and the next one begins at once. -/
theorem workers_do_not_spin_unloading :
    ∃ node ∈ laden.nodes, ∃ w ∈ node.body.workers, (∀ e ∈ unloading, ¬ e.Ends node.host.name) ∧
      w.cycle? = none ∧ (laden.run unloading).now = laden.now ∧
      (∀ keys, .enqueue keys ∉ unloading) ∧
      .cycleEnded ⟨"n", "w", 0⟩ 0 ∈ (laden.run unloading).entered (.turn 0 0) ∧
      Journal.asks ("n", "w") ((laden.run unloading).journal.since laden.journal) ≤ 1 ∧
      (∃ batch, 1 ≤ batch.events.length ∧
        (laden.run unloading).journal.HasAccepted ("n", "w") batch ∧
        (laden.run unloading).journal.HasDeleted ("n", "w") batch) ∧
      ((laden.run unloading).journal.since laden.journal).countP (·.isBeat ("n", "w")) ≤ 1 ∧
      ((laden.run unloading).journal.since laden.journal).countP (·.isCycle ("n", "w")) ≤ 5 ∧
      laden.turnsOf ("n", "w") unloading ≤ 57 := by
  have hsome : ∃ node ∈ laden.nodes, ∃ w ∈ node.body.workers, node.host.name = "n" ∧
      w.name = "w" ∧ w.settings.batchSize = 1 ∧ w.settings.maxConsecutiveBatches = 1 ∧
      w.cycle? = none := by
    decide +kernel
  have hrows : laden.outbox.rows.length = 3 := by decide +kernel
  have hstays : ∀ e ∈ unloading, ¬ e.Ends "n" := by decide
  have hnow : (laden.run unloading).now = laden.now := by decide +kernel
  have hnone : ∀ keys, .enqueue keys ∉ unloading := by simp [unloading]
  have hended : .cycleEnded ⟨"n", "w", 0⟩ 0 ∈ (laden.run unloading).entered (.turn 0 0) := by
    decide +kernel
  rcases hsome with ⟨node, hnode, w, hw, hname, hworker, hsize, hmost, hidle⟩
  have hpost : post (node.host.name, w) = ("n", "w") := Prod.ext hname hworker
  rw [← hname] at hstays
  have hrun : laden = ({ epoch := 0 } : Cluster).run loading := rfl
  rcases workers_do_not_spin 0 {} {} loading unloading hrun hnode hw hstays
    with ⟨_, _, _, _, _, _, hsettings, hasks, hends, hinstant⟩
  rw [hpost, hsize, hrows, hidle] at hinstant
  rw [hpost, hmost] at hasks
  rcases hends (.turn 0 0) ⟨"n", "w", 0⟩ 0 id hpost.symm hended
    with ⟨_, _, _, _, _, _, hzero⟩
  rcases hzero rfl with ⟨batch, ⟨_, _, _, _, _, _, hfull, _⟩, hdone⟩
  rw [hsettings, hsize] at hfull
  rw [hpost] at hdone
  rcases hinstant hnow with ⟨hpulses, hcounts⟩
  rcases hcounts hnone with ⟨hcycles, hturns⟩
  exact ⟨node, hnode, w, hw, hstays, hidle, hnow, hnone, hended, hasks hidle,
    ⟨batch, hfull, hdone⟩, hpulses, hcycles, hturns⟩

end Cluster

end OutboxCluster
