import OutboxCluster.Proofs.Crew
import OutboxCluster.Proofs.Landing

/-!
# Deleted Events Were Accepted

An event leaves the outbox in one way only: a worker has given it to its sink, the sink
has accepted the batch, and the worker has asked for that batch to be deleted, with
nothing done in between. There are many ways in which a batch can come to nothing. All
of them go through control, and control never comes to wait for events to be deleted, so
none of them reaches the outbox. This holds whatever fails and however long a worker
takes.

What a turn does is described from its start by `Traced`: who is entered in the journal,
when the worker comes to ask for a deletion, and when the outbox changes. Between the
question and the deletion others may act, so the link between the two is an invariant of
the cluster, `Accounted`. It speaks of what the worker has done last, and others cannot
do anything in its name, since no two workers are known by the same.

## Main definitions

* `Journal.Signed`: The journal has grown by what one worker has done.
* `Journal.Accepted`: What a worker has done last is to ask for an accepted batch to be
  deleted.
* `Scene.Traced`: What a turn does to the outbox, and what it enters.
* `Cluster.Accounted`: The invariant.

## Theorems

* `resume_traced`: Every turn is traced.
* `accounted_step`: Every event keeps the invariant.
* `vanished_rows_were_accepted`: A row that is gone was in a batch that was accepted
  before.
-/

namespace OutboxCluster

namespace Journal

/-- The journal has grown by what one has done, and by notices. -/
def Signed (who : Stamp) (j j' : Journal) : Prop :=
  ∃ es, j' = es ++ j ∧ ∀ e ∈ es, ∀ who' ∈ e.stamp?, who' = who

namespace Signed

variable {who : Stamp} {j j' j'' : Journal}

theorem refl (who : Stamp) (j : Journal) : Signed who j j :=
  ⟨[], rfl, fun _ h => absurd h List.not_mem_nil⟩

theorem trans (h : Signed who j j') (h' : Signed who j' j'') : Signed who j j'' := by
  rcases h with ⟨es, rfl, hes⟩
  rcases h' with ⟨es', rfl, hes'⟩
  refine ⟨es' ++ es, (List.append_assoc _ _ _).symm, fun e he => ?_⟩
  exact (List.mem_append.mp he).elim (hes' e) (hes e)

theorem cons (h : Signed who j j') {e : Entry} (he : ∀ who' ∈ e.stamp?, who' = who) :
    Signed who j (e :: j') :=
  h.trans ⟨[e], rfl, fun _ hmem => List.mem_singleton.mp hmem ▸ he⟩

theorem addNotices (h : Signed who j j') (ns : List Notice) :
    Signed who j (j'.addNotices ns) := by
  refine h.trans ⟨(ns.map Entry.notice).reverse, rfl, fun e he => ?_⟩
  rcases List.mem_map.mp (List.mem_reverse.mp he) with ⟨n, _, rfl⟩
  exact fun _ hmem => nomatch hmem

end Signed

/-- The last thing that a worker has done is to ask for a batch to be deleted, at once
    after its sink had accepted that batch. -/
def Accepted (j : Journal) (worker : String × String) (batch : Batch) : Prop :=
  ∃ later who snapshot earlier,
    j = later ++ .deleting who snapshot batch :: .ended who batch .accepted :: earlier ∧
    who.post = worker ∧ ∀ e ∈ later, ∀ who' ∈ e.stamp?, who'.post ≠ worker

/-- Others act. -/
theorem Accepted.mono {j j' : Journal} {worker : String × String} {batch : Batch}
    (h : j.Accepted worker batch)
    (hj : ∃ es, j' = es ++ j ∧ ∀ e ∈ es, ∀ who ∈ e.stamp?, who.post ≠ worker) :
    j'.Accepted worker batch := by
  rcases h with ⟨later, who, snapshot, earlier, rfl, hwho, hlater⟩
  rcases hj with ⟨es, rfl, hes⟩
  refine ⟨es ++ later, who, snapshot, earlier, (List.append_assoc _ _ _).symm, hwho,
    fun e he => ?_⟩
  exact (List.mem_append.mp he).elim (hes e) (hlater e)

end Journal

namespace Scene

/-- What the turn from `s` to `s'` has left behind. -/
structure Traced (s s' : Scene) : Prop where
  signed : Journal.Signed s.stamp s.journal s'.journal
  /-- Who comes to wait for a deletion has just asked for it, and the sink has accepted. -/
  asks : ∀ due h, s'.worker.wait = .deleting due h → ∃ snapshot earlier,
    s'.journal = .deleting s.stamp snapshot h.batch :: .ended s.stamp h.batch .accepted :: earlier
  /-- Only who has waited for a deletion changes the outbox. -/
  outbox : s'.outbox = s.outbox ∨ ∃ due h count, s.worker.wait = .deleting due h ∧
    s'.outbox = s.outbox.delete h.batch.ids ∧
    s'.journal = .deleted s.stamp h.batch.ids count :: s.journal

section Turns

variable {s s₁ s' : Scene} {h : Handover}

/-- Control leaves the outbox alone and does not come to wait for a deletion. -/
theorem Lands.traced (hlands : Lands s₁ s') (hsigned : Journal.Signed s.stamp s.journal s₁.journal)
    (hstamp : s₁.stamp = s.stamp) (houtbox : s₁.outbox = s.outbox) : Traced s s' where
  signed := by
    rcases hlands.marks with ⟨es, hes, hmarks⟩
    refine hsigned.trans ⟨es, hes, fun e he who hwho => ?_⟩
    exact ((hmarks e he).2 who hwho).trans hstamp
  asks := by
    intro due h hwait
    have hberth := hlands.berth
    rw [hwait] at hberth
    exact hberth.elim
  outbox := Or.inl (hlands.outbox_eq.trans houtbox)

/-- Nothing but the journal and the worker has changed, and the worker does not wait for
    a deletion. -/
theorem Traced.of_wait (hsigned : Journal.Signed s.stamp s.journal s'.journal)
    (hwait : ∀ due h, s'.worker.wait ≠ .deleting due h) (houtbox : s'.outbox = s.outbox) :
    Traced s s' :=
  ⟨hsigned, fun due h heq => absurd heq (hwait due h), Or.inl houtbox⟩

/-- Something has been done before, and the worker does not wait for a deletion. -/
theorem Traced.after (hsigned : Journal.Signed s.stamp s.journal s₁.journal)
    (hstamp : s₁.stamp = s.stamp) (houtbox : s₁.outbox = s.outbox)
    (hwait : ∀ due h, s₁.worker.wait ≠ .deleting due h) (htraced : Traced s₁ s') :
    Traced s s' where
  signed := hsigned.trans (hstamp ▸ htraced.signed)
  asks := hstamp ▸ htraced.asks
  outbox := by
    rcases htraced.outbox with heq | ⟨due, h, _, heq, _⟩
    · exact Or.inl (heq.trans houtbox)
    · exact absurd heq (hwait due h)

theorem traced_failBatch (halone : s.worker.retained = none) (error : CoordinationError) :
    Traced s (s.failBatch h error) :=
  (lands_failBatch halone error).traced (Journal.Signed.refl _ _) rfl rfl

theorem traced_loseOwnership : Traced s (s.loseOwnership h) :=
  lands_loseOwnership.traced ((Journal.Signed.refl _ _).cons fun _ hwho => nomatch hwho) rfl rfl

/-- The sink is done with a batch. Only here may a worker come to ask for a deletion. -/
theorem traced_sinkDone (halone : s.worker.retained = none)
    (hwait : ∀ due h, s.worker.wait ≠ .deleting due h) (ending : Ending) :
    Traced s (s.sinkDone h ending) := by
  have hsigned : Journal.Signed s.stamp s.journal (.ended s.stamp h.batch ending :: s.journal) :=
    (Journal.Signed.refl _ _).cons fun who hwho => (Option.some.inj hwho).symm
  have hafter : ∀ s', Traced (s.enter (.ended s.stamp h.batch ending)) s' → Traced s s' := by
    intro s' htraced
    refine Traced.after ?_ ?_ ?_ ?_ htraced
    · exact hsigned
    · rfl
    · rfl
    · exact hwait
  have halone' : (s.enter (.ended s.stamp h.batch ending)).worker.retained = none := halone
  unfold sinkDone
  cases ending with
  | broken => exact Traced.of_wait hsigned (fun _ _ => Wait.noConfusion) rfl
  | refused message => exact hafter _ (traced_failBatch halone' _)
  | accepted =>
      dsimp only
      split
      · refine ⟨hsigned.cons fun who hwho => (Option.some.inj hwho).symm, fun due h' heq => ?_,
          Or.inl rfl⟩
        have heq : h = h' := (Wait.deleting.inj heq).2
        exact heq ▸ ⟨_, _, rfl⟩
      · exact hafter _ traced_loseOwnership

theorem traced_race (halone : s.worker.retained = none)
    (hwait : ∀ due h, s.worker.wait ≠ .deleting due h) (branches : List Branch) :
    Traced s (s.race h branches) := by
  rcases race_cases s h branches with ⟨s₁, h₁, hasked, hraced⟩
  -- That the sink is asked is entered, and changes nothing else that matters here.
  have hfirst : Journal.Signed s.stamp s.journal s₁.journal ∧ s₁.stamp = s.stamp ∧
      s₁.outbox = s.outbox ∧ s₁.worker = s.worker := by
    cases hasked with
    | before => exact ⟨Journal.Signed.refl _ _, rfl, rfl, rfl⟩
    | now hnone =>
        refine ⟨Journal.Signed.addNotices ?_ _, rfl, rfl, rfl⟩
        exact (Journal.Signed.refl _ _).cons fun who hwho => (Option.some.inj hwho).symm
  rcases hfirst with ⟨hsigned, hstamp, houtbox, hworker⟩
  rw [← hworker] at halone hwait
  refine Traced.after hsigned hstamp houtbox hwait ?_
  generalize s.race h branches = s' at hraced ⊢
  cases hraced with
  | nothing => exact Traced.of_wait (Journal.Signed.refl _ _) (fun _ _ => Wait.noConfusion) rfl
  | sink hongoing hdue => exact traced_sinkDone halone hwait _
  | renewal hdue =>
      exact Traced.of_wait (Journal.Signed.refl _ _) (fun _ _ => Wait.noConfusion) rfl
  | deadline _ => exact traced_loseOwnership
  | timeout htimeout hdue => exact traced_failBatch halone _

theorem traced_delete {due : Nat} (halone : s.worker.retained = none)
    (hwait : s.worker.wait = .deleting due h) : Traced s (s.delete h due) := by
  unfold delete
  split
  · dsimp only [strike]
    cases hstrike : (s.host.access.faults.strike .deleteEvents).1 with
    | some error =>
        have hlands := lands_failBatch (h := h)
          (s := (s.strike .deleteEvents).2) halone (.store error)
        exact hlands.traced (Journal.Signed.refl _ _) rfl rfl
    | none =>
        refine ⟨?_, fun _ _ => Wait.noConfusion, Or.inr ⟨due, h, _, hwait, rfl, rfl⟩⟩
        exact (Journal.Signed.refl _ _).cons fun who hwho => (Option.some.inj hwho).symm
  · exact traced_failBatch halone _

/-- The link makes an attempt. -/
theorem signed_attempt (act : Link → Access → AgentTable → Attempt) {e : Entry}
    (hwho : ∀ who ∈ e.stamp?, who = s.stamp)
    (hname : (act s.worker.link s.host.access s.agents).link.name = s.worker.link.name) :
    Journal.Signed s.stamp s.journal ((s.enter e).attempt act).journal ∧
      ((s.enter e).attempt act).stamp = s.stamp := by
  refine ⟨((Journal.Signed.refl _ _).cons hwho).addNotices _, ?_⟩
  rw [stamp, stamp, Worker.name, Worker.name, ← hname]
  rfl

theorem traced_pulse (started : Nat) (wall : Int) : Traced s (s.pulse started wall) := by
  have hattempt := signed_attempt (e := .pulsed s.stamp)
    (fun l => l.pulse { started, wall, opened := s.now })
    (fun who hwho => (Option.some.inj hwho).symm)
    (Link.name_pulse s.worker.link { started, wall, opened := s.now } s.host.access s.agents)
  rcases s.pulse_cases started wall with ⟨_, heq⟩ | ⟨_, heq⟩
  · rw [heq]
    exact Traced.of_wait hattempt.1 (fun _ _ => Wait.noConfusion) rfl
  · rw [heq]
    refine (Rolls.refl _).cycleIfDue.traced ?_ ?_ rfl
    · exact hattempt.1
    · exact hattempt.2

theorem traced_renew (started : Nat) (wall : Int) : Traced s (s.renew started wall h) := by
  have hframe := Link.renew_frame s.worker.link { started, wall, opened := s.now } s.host.access
    s.agents
  have hattempt := signed_attempt (e := .renewed s.stamp)
    (fun l => l.renew { started, wall, opened := s.now })
    (fun who hwho => (Option.some.inj hwho).symm) hframe.1
  unfold renew
  dsimp only [keepApplying]
  split
  · exact Traced.of_wait hattempt.1 (fun _ _ => Wait.noConfusion) rfl
  · exact lands_loseOwnership.traced (hattempt.1.cons fun _ hwho => nomatch hwho) hattempt.2 rfl

theorem traced_leave (halt : Option Halt) : Traced s (s.leave halt) := by
  have hsigned : Journal.Signed s.stamp s.journal (s.attempt fun l => l.leave).journal :=
    (Journal.Signed.refl _ _).addNotices _
  unfold leave
  cases halt with
  | none =>
      refine Traced.of_wait ?_ (fun _ _ => Wait.noConfusion) rfl
      exact hsigned.cons fun _ hwho => nomatch hwho
  | some reason => exact Traced.of_wait hsigned (fun _ _ => Wait.noConfusion) rfl

end Turns

/-- Every turn is traced. -/
theorem resume_traced {bound : Nat} {s : Scene}
    (hsound : s.worker.Sound s.host.name s.journal s.now bound) : Traced s s.resume := by
  have hwaits := hsound.waits
  unfold Worker.Waits at hwaits
  unfold resume
  cases hwait : s.worker.wait with
  | launched => exact (Rolls.refl s).launch.traced (Journal.Signed.refl _ _) rfl rfl
  | resting wake => exact ((Rolls.refl s).wake wake).traced (Journal.Signed.refl _ _) rfl rfl
  | pulsing due started wall => exact traced_pulse started wall
  | polling due cycle =>
      have hsigned : ∀ found, Journal.Signed s.stamp s.journal (s.searched cycle found).journal :=
        fun found => (Journal.Signed.refl _ _).cons fun who hwho => (Option.some.inj hwho).symm
      rcases poll_cases s cycle with ⟨found, hlands⟩ | ⟨events, _, _, ⟨_, heq⟩ | ⟨_, heq⟩⟩
      · exact hlands.traced (hsigned found) rfl rfl
      · dsimp only
        rw [heq]
        exact Traced.of_wait (hsigned (some events)) (fun _ _ => Wait.noConfusion) rfl
      · dsimp only
        rw [heq]
        exact lands_loseOwnership.traced ((hsigned (some events)).cons fun _ hwho => nomatch hwho)
          rfl rfl
  | applying h =>
      rw [hwait] at hwaits
      exact traced_race hwaits.1.alone (fun _ _ heq => nomatch hwait.symm.trans heq) _
  | renewing due started wall h => exact traced_renew started wall
  | deleting due h =>
      rw [hwait] at hwaits
      exact traced_delete hwaits.alone hwait
  | deleted due count h =>
      rw [hwait] at hwaits
      dsimp only [confirm]
      split
      · exact (lands_completeBatch hwaits.alone hwaits.agent hwaits.shard count).traced
          (Journal.Signed.refl _ _) rfl rfl
      · exact traced_failBatch hwaits.alone _
  | leaving due halt => exact traced_leave halt
  -- A worker that has not begun or has come to its end does nothing.
  | _ =>
      exact Traced.of_wait (Journal.Signed.refl _ _) (fun _ _ heq => nomatch hwait.symm.trans heq)
        rfl

end Scene

namespace Cluster

variable {bound : Nat} {c c' : Cluster}

/-- Who waits for a deletion has asked for it after its sink had accepted the batch. -/
structure Accounted (c : Cluster) : Prop where
  distinct : c.Distinct
  accepted : ∀ p ∈ c.crew, ∀ due h, p.2.wait = .deleting due h →
    c.journal.Accepted (post p) h.batch

theorem Outside.suffix {e : Event} (h : Outside e c c') : c.journal <:+ c'.journal := by
  rcases h.journal with ⟨ns, heq⟩
  rw [heq]
  exact List.suffix_append _ _

theorem Accounted.outside {e : Event} (h : c.Accounted) (hout : Outside e c c') :
    c'.Accounted where
  distinct := hout.distinct
  accepted := by
    intro p hp due h' hwait
    rcases hout.crew.mem_cases hp with ⟨p₀, hp₀, hshifted⟩ | hbrings
    · have hbefore : p₀ = p := by
        cases hshifted with
        | same => rfl
        | started => exact nomatch hwait
        | ended => exact nomatch hwait
      rw [hbefore] at hp₀
      rcases hout.journal with ⟨ns, heq⟩
      refine (h.accepted p hp₀ due h' hwait).mono ⟨_, heq, fun e he => ?_⟩
      rcases List.mem_map.mp (List.mem_reverse.mp he) with ⟨n, _, rfl⟩
      exact fun _ hwho => nomatch hwho
    · -- Who has just come does not wait for a deletion.
      rcases hbrings.fresh.1 with heq | heq
      · exact nomatch heq.symm.trans hwait
      · exact nomatch heq.symm.trans hwait

/-- The turn of a worker is its own, and nobody else is known by the same. -/
theorem Turned.traced {node : Node} {worker : Worker} {skip : Nat}
    {others : List (String × Worker)} (hturned : Turned bound c c' node worker skip others)
    (hcustody : c.Custody bound) (hdistinct : c.Distinct) :
    Scene.Traced (c.scene node worker skip) (c.scene node worker skip).resume ∧
    (c.scene node worker skip).stamp.post = post (node.host.name, worker) ∧
    ∀ p ∈ others, post p ≠ post (node.host.name, worker) := by
  have hsound := hcustody.sound node hturned.node_mem worker hturned.worker_mem
  refine ⟨Scene.resume_traced (s := c.scene node worker skip) hsound, rfl, fun p hp heq => ?_⟩
  have hnodup := (hturned.crew_before.map post).nodup_iff.mp hdistinct.posts
  rw [List.map_cons, List.nodup_cons] at hnodup
  exact hnodup.1 (List.mem_map.mpr ⟨p, hp, heq⟩)

theorem Accounted.turned {node : Node} {worker : Worker} {skip : Nat}
    {others : List (String × Worker)} (h : c.Accounted) (hcustody : c.Custody bound)
    (hturned : Turned bound c c' node worker skip others) : c'.Accounted where
  distinct := hturned.distinct
  accepted := by
    rcases hturned.traced hcustody h.distinct with ⟨htraced, hstamp, hothers⟩
    intro p hp due h' hwait
    rw [hturned.journal_eq]
    rcases List.mem_cons.mp (hturned.crew_after.mem_iff.mp hp) with rfl | hp
    · rcases htraced.asks due h' hwait with ⟨snapshot, earlier, heq⟩
      refine ⟨[], _, snapshot, earlier, heq, ?_, fun _ he => absurd he List.not_mem_nil⟩
      have hname := hturned.settles.follows.worker_eq
      rw [hstamp, post, post]
      exact congrArg _ hname.symm
    -- All that was entered is of this worker, so what the others had accepted still stands.
    · have hmem : p ∈ c.crew := hturned.crew_before.mem_iff.mpr (List.mem_cons_of_mem _ hp)
      rcases htraced.signed with ⟨es, heq, hes⟩
      refine (h.accepted p hmem due h' hwait).mono ⟨es, heq, fun e he who hwho => ?_⟩
      rw [hes e he who hwho, hstamp]
      exact (hothers p hp).symm

/-- Every event keeps the invariant. -/
theorem accounted_step (h : c.Accounted) (hcustody : c.Custody bound)
    (hopens : c.OpensWithin bound) (e : Event) : (c.perform e).2.Accounted := by
  rcases step_cases h.distinct hcustody hopens e with hout | ⟨node, worker, skip, others, hturned⟩
  · exact h.outside hout
  · exact h.turned hcustody hturned

/-- Events that are deleted by nobody from outside go with a batch that was accepted. -/
theorem vanished_step (h : c.Accounted) (hcustody : c.Custody bound)
    (hopens : c.OpensWithin bound) {e : Event} (hkeeps : ∀ ids, e ≠ .deleteEvents ids)
    {row : Int × EventRow} (hbefore : row ∈ c.outbox.rows)
    (hafter : row ∉ (c.perform e).2.outbox.rows) :
    ∃ who batch count, (c.perform e).2.journal = .deleted who batch.ids count :: c.journal ∧
      row.1 ∈ batch.ids ∧ c.journal.Accepted who.post batch := by
  rcases step_cases h.distinct hcustody hopens e with hout | ⟨node, worker, skip, others, hturned⟩
  · rw [hout.outbox_eq] at hafter
    refine absurd ?_ hafter
    cases e with
    | enqueue keys => exact (Outbox.rows_enqueueAll keys c.outbox).subset hbefore
    | deleteEvents ids => exact absurd rfl (hkeeps ids)
    | _ => exact hbefore
  -- In a turn rows are only taken away by a deletion, and that was prepared for.
  · rcases hturned.traced hcustody h.distinct with ⟨htraced, hstamp, _⟩
    rw [hturned.outbox_eq] at hafter
    rw [hturned.journal_eq]
    rcases htraced.outbox with heq | ⟨due, h', count, hwait, heq, hjournal⟩
    · rw [heq] at hafter
      exact absurd hbefore hafter
    · rw [heq, Table.mem_delete, not_and_not_right] at hafter
      refine ⟨_, h'.batch, count, hjournal, hafter hbefore, ?_⟩
      rw [hstamp]
      refine h.accepted _ ?_ due h' hwait
      exact hturned.crew_before.mem_iff.mpr List.mem_cons_self

theorem accounted_run {events : List Event} (h : c.Accounted) (hcustody : c.Custody bound)
    (hopens : Always (OpensWithin bound) c events) : (c.run events).Accounted := by
  induction events generalizing c with
  | nil => exact h
  | cons e events ih =>
      exact ih (accounted_step h hcustody hopens.1 e) (custody_step hcustody hopens.1 e) hopens.2

theorem suffix_step (h : c.Distinct) (hcustody : c.Custody bound) (hopens : c.OpensWithin bound)
    (e : Event) : c.journal <:+ (c.perform e).2.journal := by
  rcases step_cases h hcustody hopens e with hout | ⟨node, worker, skip, others, hturned⟩
  · exact hout.suffix
  · rw [hturned.journal_eq]
    exact hturned.settles.follows.suffix

theorem suffix_run {events : List Event} (h : c.Accounted) (hcustody : c.Custody bound)
    (hopens : Always (OpensWithin bound) c events) : c.journal <:+ (c.run events).journal := by
  induction events generalizing c with
  | nil => exact List.suffix_refl _
  | cons e events ih =>
      exact (suffix_step h.distinct hcustody hopens.1 e).trans
        (ih (accounted_step h hcustody hopens.1 e) (custody_step hcustody hopens.1 e) hopens.2)

theorem vanished_run {events : List Event} (h : c.Accounted) (hcustody : c.Custody bound)
    (hopens : Always (OpensWithin bound) c events) (hkeeps : ∀ ids, .deleteEvents ids ∉ events)
    {row : Int × EventRow} (hbefore : row ∈ c.outbox.rows)
    (hafter : row ∉ (c.run events).outbox.rows) :
    ∃ (later : List Entry) (who : Stamp) (batch : Batch) (count : Nat) (earlier : Journal),
      (c.run events).journal = later ++ .deleted who batch.ids count :: earlier ∧
      c.journal <:+ earlier ∧ row.1 ∈ batch.ids ∧ earlier.Accepted who.post batch := by
  induction events generalizing c with
  | nil => exact absurd hbefore hafter
  | cons e events ih =>
      have haccounted := accounted_step h hcustody hopens.1 e
      have hcustody' := custody_step hcustody hopens.1 e
      have hkeeps' : ∀ ids, .deleteEvents ids ∉ events :=
        fun ids hmem => hkeeps ids (List.mem_cons_of_mem e hmem)
      by_cases hrow : row ∈ (c.perform e).2.outbox.rows
      · -- It is still there after this event, so it goes with a later one.
        rcases ih haccounted hcustody' hopens.2 hkeeps' hrow hafter
          with ⟨later, who, batch, count, earlier, heq, hsuffix, haccepted⟩
        exact ⟨later, who, batch, count, earlier, heq,
          (suffix_step h.distinct hcustody hopens.1 e).trans hsuffix, haccepted⟩
      · rcases vanished_step h hcustody hopens.1
            (fun ids heq => hkeeps ids (heq ▸ List.mem_cons_self)) hbefore hrow
          with ⟨who, batch, count, heq, hid, haccepted⟩
        rcases suffix_run haccounted hcustody' hopens.2 with ⟨later, hlater⟩
        refine ⟨later, who, batch, count, c.journal, ?_, List.suffix_refl _, hid, haccepted⟩
        rw [← heq]
        exact hlater.symm

/-- Whatever fails and whoever comes and goes: a row that disappears from the outbox,
    other than from outside, was deleted by a worker whose own sink had accepted a batch
    with just the ids of that deletion, and this worker had done nothing since. -/
theorem vanished_rows_were_accepted (epoch : Int) (agents : AgentTable) (outbox : Outbox)
    (before events : List Event) (hkeeps : ∀ ids, .deleteEvents ids ∉ events)
    {row : Int × EventRow}
    (hthere : row ∈ (({ epoch, agents, outbox } : Cluster).run before).outbox.rows)
    (hgone : row ∉ (({ epoch, agents, outbox } : Cluster).run (before ++ events)).outbox.rows) :
    ∃ (later : List Entry) (who : Stamp) (batch : Batch) (count : Nat) (earlier : Journal),
      (({ epoch, agents, outbox } : Cluster).run (before ++ events)).journal =
        later ++ .deleted who batch.ids count :: earlier ∧
      (({ epoch, agents, outbox } : Cluster).run before).journal <:+ earlier ∧
      row.1 ∈ batch.ids ∧ earlier.Accepted who.post batch := by
  rcases exists_always_opensWithin { epoch, agents, outbox } (before ++ events)
    with ⟨bound, hopens⟩
  rcases hopens.append with ⟨hopens, hopens'⟩
  have hinit : ({ epoch, agents, outbox } : Cluster).Custody bound :=
    ⟨trivial, fun _ h => absurd h List.not_mem_nil⟩
  have haccounted : ({ epoch, agents, outbox } : Cluster).Accounted :=
    ⟨⟨List.nodup_nil, fun _ h => absurd h List.not_mem_nil⟩, fun _ h => absurd h List.not_mem_nil⟩
  rw [run_append] at hgone ⊢
  exact vanished_run (accounted_run haccounted hinit hopens) (custody_run hinit hopens) hopens'
    hkeeps hthere hgone

/-- A node with one worker, for the only shard, that hands on what it finds at once, and
    an event. -/
def reporter : List Event :=
  [.addSingle { name := "n", sink := .reporting } {} "w" (Assignment.ofNumbers? 1 0),
    .enqueue ["k"]]

/-- The worker pulses, searches, hands on what it has found, and deletes it. -/
def reporterTurns : List Event :=
  [.start "n", .turn 0 0, .turn 0 0, .turn 0 0, .turn 0 0, .turn 0 0]

theorem vanished_rows_were_accepted_reporter :
    (∀ ids, .deleteEvents ids ∉ reporterTurns) ∧
    (1, EventRow.ofKey "k" []) ∈ (({ epoch := 0 } : Cluster).run reporter).outbox.rows ∧
    (1, EventRow.ofKey "k" []) ∉
      (({ epoch := 0 } : Cluster).run (reporter ++ reporterTurns)).outbox.rows ∧
    ∃ (later : List Entry) (who : Stamp) (batch : Batch) (count : Nat) (earlier : Journal),
      (({ epoch := 0 } : Cluster).run (reporter ++ reporterTurns)).journal =
        later ++ .deleted who batch.ids count :: earlier ∧
      (({ epoch := 0 } : Cluster).run reporter).journal <:+ earlier ∧
      1 ∈ batch.ids ∧ earlier.Accepted who.post batch := by
  have hkeeps : ∀ ids, .deleteEvents ids ∉ reporterTurns := by
    intro ids hmem
    simp only [reporterTurns, List.mem_cons, reduceCtorEq, List.not_mem_nil, or_self] at hmem
  have hthere : (1, EventRow.ofKey "k" []) ∈
      (({ epoch := 0 } : Cluster).run reporter).outbox.rows := by
    decide +kernel
  have hgone : (1, EventRow.ofKey "k" []) ∉
      (({ epoch := 0 } : Cluster).run (reporter ++ reporterTurns)).outbox.rows := by
    decide +kernel
  exact ⟨hkeeps, hthere, hgone, vanished_rows_were_accepted 0 {} {} reporter reporterTurns hkeeps
    hthere hgone⟩

end Cluster

end OutboxCluster
