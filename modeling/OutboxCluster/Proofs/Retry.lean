import OutboxCluster.Proofs.Deletion
import OutboxCluster.Proofs.Drain
import OutboxCluster.Proofs.Persist

/-!
# Retries

What a worker has found it hands on, again and again, until that succeeds or it may not do so
any more. Whatever happens to the outbox and to everybody else in the meantime, it is the same
events every time, and the worker does not search for others. It counts every failure, rests
after each of them for as long as is configured, and gives up exactly at the last one that is
allowed.

A batch that is kept is dropped when a cycle begins and its agent or its shard is not that of
the worker any more. So the law is about runs in which agent and shard are those of the batch
whenever a cycle begins, which is a rule for the run, `Owns`. Another rule, `Unsettled`, is
that no attempt has succeeded so far and the shard was not lost during one. What happens next
is then left open: the last part of the law says of any event what may become of the batch.

Events are gone as soon as they are deleted, and the worker hears of it some time later. So a
worker that has given up has deleted nothing, as long as it hears of its deletions before the
time allowed is over (`Hears`), which is to say that no deletion that fails removes anything.

## Main definitions

* `Worker.HearsInTime`: No deletion that was made counts as a failure.
* `Cluster.Checked`: All workers have settings that were checked.
* `Cluster.entered`: What is entered by an event.
* `Cluster.Owns`, `Cluster.Unsettled`, `Cluster.Hears`: Rules for runs.
* `Cluster.Fares`: What becomes of a batch by an event.
* `Cluster.Sequel`: What has become of a batch in a run.
* `Cluster.Deletes`: A worker has deleted events in a run.
* `Cluster.Finds`: A worker finds a batch.

## Theorems

* `pursued_step`: What becomes of a batch by any event.
* `sequel_step`, `sequel_run`: A batch is pursued in every run.
* `hands_of_finds`: Who has found a batch has it in hand.
* `batches_are_retried_unchanged`: All of this, for every batch that is found in a run.
-/

namespace OutboxCluster

namespace Worker

variable {w w' : Worker} {b : Batch} {k now : Nat} {es : List Entry}

/-- As long as the batch is neither done nor given up it is pursued on, and what is counted are
    its failures. -/
theorem Fares.pursues (h : w.Fares b k now es w') (hsettings : w'.settings = w.settings)
    (happlied : w'.stats.batchesApplied = w.stats.batchesApplied)
    (hdiscarded : w'.stats.discardedBatches = w.stats.discardedBatches) :
    ∃ j, w'.stats.failedAttempts = w.stats.failedAttempts + j ∧ w'.Pursues b (k + j) := by
  cases h with
  | goesOn hpursues _ hstats => exact ⟨0, congrArg Stats.failedAttempts hstats, hpursues⟩
  | fails _ _ hstats _ hafter =>
      refine ⟨1, congrArg Stats.failedAttempts hstats, ?_⟩
      rcases hafter with ⟨hkeeps, _, hmore⟩ | ⟨hgives, hpolicy⟩
      · exact .keeps hkeeps (hsettings ▸ hmore)
      · exact .givesUp hgives rfl (hsettings ▸ hpolicy)
  | succeeds _ _ _ hsucceeded _ => exact absurd (happlied.symm.trans hsucceeded).symm (by omega)
  | loses _ _ _ _ hlost _ => exact absurd (hdiscarded.symm.trans hlost).symm (by omega)

/-- The word that events were deleted comes before the time allowed is over. -/
def HearsInTime (w : Worker) : Prop :=
  match w.wait with
  | .deleted due _ h => ∀ limit ∈ h.timeoutAt, due ≤ limit
  | _ => True

instance (w : Worker) : Decidable w.HearsInTime := by
  unfold HearsInTime
  split <;> infer_instance

/-- The worker waits for the word that events were deleted. -/
def Deleted (w : Worker) : Prop := ∃ due count h, w.wait = .deleted due count h

/-- Unless the batch is done or given up, the worker has deleted no events but those of which it
    waits to hear. -/
theorem Fares.deleted (h : w.Fares b k now es w') (hhears : w.HearsInTime)
    (happlied : w'.stats.batchesApplied = w.stats.batchesApplied)
    (hdiscarded : w'.stats.discardedBatches = w.stats.discardedBatches)
    (hdeleted : w.Deleted ∨ ∃ e ∈ es, e.isDeletion = true) : w'.Deleted := by
  cases h with
  | goesOn _ _ _ _ hdeletes hdeletions hnot =>
      rcases hdeleted with ⟨due, count, h, hwait⟩ | ⟨e, he, hdeletion⟩
      · exact absurd hwait (hnot due count h)
      · rcases hdeletions e he hdeletion with ⟨due, h, hwait⟩
        rcases hdeletes due h hwait with ⟨due', count, hwait'⟩
        exact ⟨due', count, h, hwait'⟩
  | fails _ hfails _ hnone _ =>
      rcases hdeleted with ⟨due, count, h, hwait⟩ | ⟨e, he, hdeletion⟩
      · cases hfails with
        | refused happlying _ => cases hwait.symm.trans happlying
        | undeleted hdeleting => cases hwait.symm.trans hdeleting
        | @timedOut h' limit hhand hlimit hle hlate =>
            -- The deletion was made, so it was heard of before the time was over.
            rw [handover?, hwait, Option.some.injEq] at hhand
            rw [HearsInTime, hwait] at hhears
            have hdue := hhears limit (hhand ▸ hlimit)
            have hlate := hlate due count h hwait
            omega
      · cases (hnone e he).symm.trans hdeletion
  | succeeds _ _ _ hsucceeded _ => exact absurd (happlied.symm.trans hsucceeded).symm (by omega)
  | loses _ _ _ _ hlost _ => exact absurd (hdiscarded.symm.trans hlost).symm (by omega)

end Worker

theorem Shifted.settings_eq {Ends : String → Prop} {p p' : String × Worker}
    (h : Shifted Ends p p') : p'.2.settings = p.2.settings := by
  cases h <;> rfl

namespace Cluster

variable {bound : Nat} {c c' : Cluster} {who : String × String} {w w' : Worker} {b : Batch}
  {k : Nat} {e : Event} {events : List Event}

/-- All workers have settings that were checked. -/
def Checked (c : Cluster) : Prop := ∀ p ∈ c.crew, ∃ s : Settings, s.validate = .ok p.2.settings

theorem checked_step (h : c.Checked) (hdistinct : c.Distinct) (hcustody : c.Custody bound)
    (hopens : c.OpensWithin bound) (e : Event) : (c.perform e).2.Checked := by
  intro p hp
  rcases step_cases hdistinct hcustody hopens e with hout | ⟨node, worker, skip, others, hturned⟩
  · rcases hout.crew.mem_cases hp with ⟨q, hq, hshifted⟩ | hbrings
    · rw [hshifted.settings_eq]
      exact h q hq
    · rcases hbrings.fresh with ⟨_, settings, v, name, configured, hvalid, heq⟩
      rw [heq]
      exact ⟨settings, hvalid⟩
  · rcases List.mem_cons.mp (hturned.crew_after.mem_iff.mp hp) with rfl | hother
    · rw [(hturned.conducts hcustody).settings_eq]
      exact h _ (mem_crew_of_mem hturned.node_mem hturned.worker_mem)
    · exact h p (hturned.crew_before.mem_iff.mpr (List.mem_cons_of_mem _ hother))

theorem checked_run (h : c.Checked) (hdistinct : c.Distinct) (hcustody : c.Custody bound)
    (hopens : Always (OpensWithin bound) c events) :
    (c.run events).Checked ∧ (c.run events).Distinct := by
  induction events generalizing c with
  | nil => exact ⟨h, hdistinct⟩
  | cons e events ih =>
      exact ih (checked_step h hdistinct hcustody hopens.1 e)
        (distinct_step hdistinct hcustody hopens.1 e) (custody_step hcustody hopens.1 e) hopens.2

/-- What is true of every state of a run is true of the last one. -/
theorem Always.last {P : Cluster → Prop} (h : Always P c events) : P (c.run events) := by
  induction events generalizing c with
  | nil => exact h
  | cons e events ih => exact ih h.2

/-- What is entered by an event. -/
def entered (c : Cluster) (e : Event) : List Entry := (c.perform e).2.journal.since c.journal

/-- Whenever the worker begins a cycle, its agent may process, and agent and shard are those
    of the batch. -/
def Owns (who : String × String) (b : Batch) (c : Cluster) (e : Event) : Prop :=
  .cycleBegan ⟨who.1, who.2, c.now⟩ ∈ c.entered e →
    ∀ p ∈ (c.perform e).2.crew, post p = who →
      p.2.link.snapshot.canProcess c.now = true ∧ p.2.link.snapshot.Bears b

/-- The event is a turn of the worker, in which it does something with the batch that it
    pursues, or others act and leave the worker alone. -/
def Fares (c : Cluster) (e : Event) (who : String × String) (b : Batch) (k : Nat)
    (w w' : Worker) : Prop :=
  w.Fares b k c.now (c.entered e) w' ∧ (∀ x ∈ c.entered e, x.Repeats b k) ∨
  w' = w ∧ ∀ x ∈ c.entered e, ∀ stamp ∈ x.stamp?, stamp.post ≠ who

/-- Apart from turns there are only reports. -/
theorem Outside.reports (hout : Outside e c (c.perform e).2) :
    ∀ x ∈ c.entered e, ∃ n, x = .notice n := by
  rcases hout.journal with ⟨ns, hjournal⟩
  intro x hx
  rw [entered, hjournal, Journal.addNotices, Journal.since_append] at hx
  rcases List.mem_map.mp (List.mem_reverse.mp hx) with ⟨n, _, heq⟩
  exact ⟨n, heq.symm⟩

/-- In a turn that is entered which the worker enters. -/
theorem Turned.entered_eq {node : Node} {worker : Worker} {skip : Nat}
    {others : List (String × Worker)} {es : List Entry}
    (hturned : Turned bound c (c.perform e).2 node worker skip others)
    (hes : (c.scene node worker skip).resume.journal = es ++ c.journal) : c.entered e = es := by
  rw [entered, hturned.journal_eq, hes, Journal.since_append]

/-- The worker takes its turn. -/
theorem Turned.fares {node : Node} {worker : Worker} {skip : Nat} {others : List (String × Worker)}
    (hturned : Turned bound c (c.perform e).2 node worker skip others)
    (hcustody : c.Custody bound)
    (hdue : ∃ due, worker.dueAt node.body.signal = some due ∧ due ≤ c.now)
    (hpursues : worker.Pursues b k) (howns : c.Owns (post (node.host.name, worker)) b e) :
    worker.Fares b k c.now (c.entered e) (c.scene node worker skip).resume.worker ∧
      ∀ x ∈ c.entered e, x.Repeats b k := by
  have hsound := hcustody.sound node hturned.node_mem worker hturned.worker_mem
  have hfollows := hturned.settles.follows
  have howned : (c.scene node worker skip).Owned (c.scene node worker skip).resume b := by
    intro hbegan
    have hmem : (node.host.name, (c.scene node worker skip).resume.worker) ∈
        (c.perform e).2.crew := hturned.crew_after.mem_iff.mpr List.mem_cons_self
    have hbegan' : .cycleBegan ⟨node.host.name, worker.name, c.now⟩ ∈ c.entered e := by
      rw [entered, hturned.journal_eq]
      exact hbegan
    have hpost : post (node.host.name, (c.scene node worker skip).resume.worker) =
        post (node.host.name, worker) := congrArg (Prod.mk node.host.name) hfollows.worker_eq
    rw [Scene.canProcess, show (c.scene node worker skip).resume.now = c.now from hfollows.now_eq]
    exact howns hbegan' _ hmem hpost
  rcases Scene.resume_tries hsound hdue hpursues howned with ⟨es, hes, hrepeats, hfares⟩
  rw [hturned.entered_eq hes]
  exact ⟨hfares, hrepeats⟩

/-- Who pursues a batch does so whatever happens, unless it is ended from outside. -/
theorem pursued_step (hdistinct : c.Distinct) (hcustody : c.Custody bound)
    (hopens : c.OpensWithin bound) (hmem : (who.1, w) ∈ c.crew) (hname : w.name = who.2)
    (hpursues : w.Pursues b k) (hstays : ¬ e.Ends who.1) (howns : c.Owns who b e) :
    c.journal <:+ (c.perform e).2.journal ∧
    ∃ w', (who.1, w') ∈ (c.perform e).2.crew ∧ w'.name = who.2 ∧ w'.settings = w.settings ∧
      c.Fares e who b k w w' := by
  rcases who with ⟨home, name⟩
  obtain rfl : w.name = name := hname
  rcases due_cases hdistinct hcustody hopens e
    with hout | ⟨node, worker, skip, others, hturned, hdue⟩
  · -- Between turns a worker that has been started stays as it is.
    have hsuffix : c.journal <:+ (c.perform e).2.journal := by
      rcases hout.journal with ⟨ns, hjournal⟩
      rw [hjournal]
      exact List.suffix_append _ _
    refine ⟨hsuffix, w, ?_, rfl, rfl, Or.inr ⟨rfl, ?_⟩⟩
    · rcases hout.crew.cases_of_mem hmem with ⟨p', hp', hshifted⟩ | hends
      · cases hshifted with
        | same => exact hp'
        | ended hends => exact absurd hends hstays
        | started hheld => exact absurd hheld hpursues.ne_held
      · exact absurd hends hstays
    · intro x hx stamp hstamp
      rcases hout.reports x hx with ⟨n, rfl⟩
      exact nomatch hstamp
  · have hsuffix := hturned.settles.follows.suffix
    rw [← hturned.journal_eq] at hsuffix
    refine ⟨hsuffix, ?_⟩
    rcases List.mem_cons.mp (hturned.crew_before.mem_iff.mp hmem) with hown | hother
    · obtain ⟨rfl, rfl⟩ := Prod.mk.inj hown
      exact ⟨_, hturned.crew_after.mem_iff.mpr List.mem_cons_self,
        hturned.settles.follows.worker_eq, (hturned.conducts hcustody).settings_eq,
        Or.inl (hturned.fares hcustody hdue hpursues howns)⟩
    · -- Whoever takes its turn is known by something else.
      refine ⟨w, hturned.crew_after.mem_iff.mpr (List.mem_cons_of_mem _ hother), rfl, rfl,
        Or.inr ⟨rfl, fun x hx stamp hstamp heq => ?_⟩⟩
      rcases hturned.traced hcustody hdistinct with ⟨htraced, hpost, hothers⟩
      rcases htraced.signed with ⟨es, hes, hsigned⟩
      rw [hturned.entered_eq hes] at hx
      rw [hsigned x hx stamp hstamp, hpost] at heq
      exact hothers _ hother heq.symm

/-- No batch of the worker is done, and none is given up. -/
def Unsettled (who : String × String) (c : Cluster) (e : Event) : Prop :=
  ∀ p ∈ c.crew, ∀ p' ∈ (c.perform e).2.crew, post p = who → post p' = who →
    p'.2.stats.batchesApplied = p.2.stats.batchesApplied ∧
    p'.2.stats.discardedBatches = p.2.stats.discardedBatches

/-- The worker hears in time of whatever it has deleted. -/
def Hears (who : String × String) (c : Cluster) : Prop :=
  ∀ p ∈ c.crew, post p = who → p.2.HearsInTime

/-- From `c` to `c'` a batch has failed `j` times more, and its worker has looked for nothing
    else and handed on nothing else. -/
structure Sequel (c c' : Cluster) (who : String × String) (b : Batch) (k j : Nat)
    (w w' : Worker) : Prop where
  mem : (who.1, w') ∈ c'.crew
  name_eq : w'.name = who.2
  settings_eq : w'.settings = w.settings
  failed : w'.stats.failedAttempts = w.stats.failedAttempts + j
  pursues : w'.Pursues b (k + j)
  suffix : c.journal <:+ c'.journal
  repeats : ∀ x ∈ c'.journal.since c.journal, ∀ stamp ∈ x.stamp?, stamp.post = who →
    x.Repeats b (k + j)

/-- The worker has deleted events. -/
def Deletes (c c' : Cluster) (who : String × String) : Prop :=
  ∃ x ∈ c'.journal.since c.journal, x.isDeletion = true ∧ ∃ stamp ∈ x.stamp?, stamp.post = who

theorem sequel_step (hdistinct : c.Distinct) (hcustody : c.Custody bound)
    (hopens : c.OpensWithin bound) (hmem : (who.1, w) ∈ c.crew) (hname : w.name = who.2)
    (hpursues : w.Pursues b k) (hstays : ¬ e.Ends who.1) (howns : c.Owns who b e)
    (hunsettled : c.Unsettled who e) :
    ∃ w' j, Sequel c (c.perform e).2 who b k j w w' ∧
      (c.Hears who → w.Deleted ∨ Deletes c (c.perform e).2 who → w'.Deleted) := by
  rcases pursued_step hdistinct hcustody hopens hmem hname hpursues hstays howns with
    ⟨hsuffix, w', hmem', hname', hsettings, ⟨hfares, hrepeats⟩ | ⟨rfl, hothers⟩⟩
  · have hpost : post (who.1, w) = who := Prod.ext rfl hname
    have hpost' : post (who.1, w') = who := Prod.ext rfl hname'
    rcases hunsettled _ hmem _ hmem' hpost hpost' with ⟨happlied, hdiscarded⟩
    rcases hfares.pursues hsettings happlied hdiscarded with ⟨j, hfailed, hpursues'⟩
    refine ⟨w', j, ⟨hmem', hname', hsettings, hfailed, hpursues', hsuffix, ?_⟩, ?_⟩
    · exact fun x hx _ _ _ => (hrepeats x hx).mono (Nat.le_add_right k j)
    · intro hhears hdeleted
      refine hfares.deleted (hhears _ hmem hpost) happlied hdiscarded (hdeleted.imp_right ?_)
      exact fun ⟨x, hx, hdeletion, _⟩ => ⟨x, hx, hdeletion⟩
  · refine ⟨w', 0, ⟨hmem', hname', rfl, rfl, hpursues, hsuffix, ?_⟩, ?_⟩
    · exact fun x hx stamp hstamp heq => absurd heq (hothers x hx stamp hstamp)
    · rintro _ (hdeleted | ⟨x, hx, _, stamp, hstamp, heq⟩)
      · exact hdeleted
      · exact absurd heq (hothers x hx stamp hstamp)

theorem Sequel.trans {c'' : Cluster} {w'' : Worker} {j j' : Nat} (h : Sequel c c' who b k j w w')
    (h' : Sequel c' c'' who b (k + j) j' w' w'') : Sequel c c'' who b k (j + j') w w'' where
  mem := h'.mem
  name_eq := h'.name_eq
  settings_eq := h'.settings_eq.trans h.settings_eq
  failed := by
    rw [h'.failed, h.failed, Nat.add_assoc]
  pursues := by
    rw [← Nat.add_assoc]
    exact h'.pursues
  suffix := h.suffix.trans h'.suffix
  repeats := by
    intro x hx stamp hstamp heq
    rw [Journal.since_trans h.suffix h'.suffix] at hx
    rw [← Nat.add_assoc]
    rcases List.mem_append.mp hx with hlater | hearlier
    · exact h'.repeats x hlater stamp hstamp heq
    · exact (h.repeats x hearlier stamp hstamp heq).mono (Nat.le_add_right _ _)

/-- Whatever happens, a batch is pursued until it is done or given up. -/
theorem sequel_run (hdistinct : c.Distinct) (hcustody : c.Custody bound)
    (hopens : Always (OpensWithin bound) c events) (hmem : (who.1, w) ∈ c.crew)
    (hname : w.name = who.2) (hpursues : w.Pursues b k) (hstays : ∀ e ∈ events, ¬ e.Ends who.1)
    (howns : Along (Owns who b) c events) (hunsettled : Along (Unsettled who) c events) :
    ∃ w' j, Sequel c (c.run events) who b k j w w' ∧
      (Always (Hears who) c events → w.Deleted ∨ Deletes c (c.run events) who → w'.Deleted) := by
  induction events generalizing c w k with
  | nil =>
      have hnothing : c.journal.since c.journal = [] := Journal.since_append [] c.journal
      refine ⟨w, 0, ⟨hmem, hname, rfl, rfl, hpursues, List.suffix_refl _, ?_⟩, ?_⟩
      · intro x hx
        rw [show (c.run []).journal.since c.journal = [] from hnothing] at hx
        exact absurd hx List.not_mem_nil
      · rintro _ (hdeleted | ⟨x, hx, _⟩)
        · exact hdeleted
        · rw [show (c.run []).journal.since c.journal = [] from hnothing] at hx
          exact absurd hx List.not_mem_nil
  | cons e events ih =>
      -- The failures of the first event are behind the batch when the rest of the run begins.
      rcases sequel_step hdistinct hcustody hopens.1 hmem hname hpursues
        (hstays e List.mem_cons_self) howns.1 hunsettled.1 with ⟨w₁, j, hfirst, hdeleted⟩
      rcases ih (distinct_step hdistinct hcustody hopens.1 e) (custody_step hcustody hopens.1 e)
        hopens.2 hfirst.mem hfirst.name_eq hfirst.pursues
        (fun e' he' => hstays e' (List.mem_cons_of_mem _ he')) howns.2 hunsettled.2 with
        ⟨w', j', hrest, hdeleted'⟩
      refine ⟨w', j + j', hfirst.trans hrest, fun hhears hbefore => hdeleted' hhears.2 ?_⟩
      rcases hbefore with hbefore | ⟨x, hx, hx'⟩
      · exact Or.inl (hdeleted hhears.1 (Or.inl hbefore))
      · rw [show c.run (e :: events) = (c.perform e).2.run events from rfl,
          Journal.since_trans hfirst.suffix hrest.suffix] at hx
        rcases List.mem_append.mp hx with hlater | hearlier
        · exact Or.inr ⟨x, hlater, hx'⟩
        · exact Or.inl (hdeleted hhears.1 (Or.inr ⟨x, hearlier, hx'⟩))

/-- By the event a worker finds events for its agent and a shard, which make up a batch. -/
def Finds (c : Cluster) (e : Event) (who : Stamp) (b : Batch) : Prop :=
  b.events ≠ [] ∧ b.attempts = 0 ∧ ∃ snapshot, snapshot.agentId = b.agentId ∧
    .searched who snapshot b.assignment (some b.events) ∈ c.entered e

/-- Who has found events has them in hand, unless they were given up at once. -/
theorem hands_of_finds {who : Stamp} (hdistinct : c.Distinct) (hcustody : c.Custody bound)
    (hopens : c.OpensWithin bound) (hfinds : c.Finds e who b)
    (hunsettled : c.Unsettled who.post e) :
    ∃ w, (who.node, w) ∈ (c.perform e).2.crew ∧ w.name = who.worker ∧ w.Hands b 0 ∧
      ∀ h ∈ w.handover?, h.timeoutAt = w.settings.transactionTimeout.map (c.now + ·) := by
  rcases hfinds with ⟨hne, hzero, snapshot, hagent, hsearched⟩
  rcases step_cases hdistinct hcustody hopens e with hout | ⟨node, worker, skip, others, hturned⟩
  · rcases hout.reports _ hsearched with ⟨_, hnotice⟩
    cases hnotice
  · have hmem' := hturned.crew_after.mem_iff.mpr List.mem_cons_self
    have hname : (c.scene node worker skip).resume.worker.name = worker.name :=
      hturned.settles.follows.worker_eq
    -- The search is the worker's own, so it has waited to search.
    rcases (hturned.conducts hcustody).grows with ⟨es, hgrows, hdue⟩
    rcases (hturned.traced hcustody hdistinct).1.signed with ⟨es', hes', hsigned⟩
    have hsame : es = es' := List.append_cancel_right (hgrows.symm.trans hes')
    rw [hturned.entered_eq hgrows] at hsearched
    rcases hdue _ hsearched with ⟨due, cycle, hwait, hassignment⟩
    obtain rfl : who = (c.scene node worker skip).stamp := hsigned _ (hsame ▸ hsearched) who rfl
    have hresume : (c.scene node worker skip).resume = (c.scene node worker skip).poll cycle := by
      unfold Scene.resume
      rw [hwait]
    have hwaits := (hcustody.sound node hturned.node_mem worker hturned.worker_mem).waits
    rw [Worker.Waits, show worker.wait = .polling due cycle from hwait] at hwaits
    have hkept := (hunsettled _ (mem_crew_of_mem hturned.node_mem hturned.worker_mem) _ hmem' rfl
      (congrArg (Prod.mk node.host.name) hname)).2
    have hfound : .searched (c.scene node worker skip).stamp snapshot b.assignment (some b.events) ∈
        (c.scene node worker skip).resume.journal.since (c.scene node worker skip).journal := by
      rw [hgrows, Journal.since_append]
      exact hsearched
    rw [hresume] at hfound hmem' hname hkept
    rcases Scene.poll_hands hwaits.1 hfound hne hkept with ⟨rfl, hhands, hlimit⟩
    have hbatch : (⟨b.events, cycle.agentId, cycle.assignment, 0⟩ : Batch) = b := by
      rw [hwaits.2.1, show worker.link.snapshot.agentId = b.agentId from hagent, hassignment,
        ← hzero]
    rw [hbatch] at hhands
    exact ⟨_, hmem', hname, hhands, hlimit⟩

instance (s : Snapshot) (b : Batch) : Decidable (s.Bears b) :=
  inferInstanceAs (Decidable (_ ∧ _))

instance (who : String × String) (b : Batch) (c : Cluster) (e : Event) :
    Decidable (c.Owns who b e) :=
  inferInstanceAs (Decidable (_ → ∀ p ∈ _, _ → _ ∧ _))

instance (who : String × String) (c : Cluster) (e : Event) : Decidable (c.Unsettled who e) :=
  inferInstanceAs (Decidable (∀ p ∈ _, ∀ p' ∈ _, _ → _ → _ ∧ _))

instance (who : String × String) (c : Cluster) : Decidable (c.Hears who) :=
  inferInstanceAs (Decidable (∀ p ∈ _, _ → _))

/-- A worker that is to try twice comes to its first search. -/
def searching : List Event :=
  [.addSingle { name := "n", sink := .scripted [] { ending := .refused "busy" } }
      { processors := { pollingInterval := 1, pulseInterval := 1, pulseExpiration := 3,
                        maxRetryAttempts := some 2 } } "w" none,
    .enqueue ["a"], .start "n", .turn 0 0, .turn 0 0, .tick, .turn 0 0, .turn 0 0]

/-- The cluster in which it is about to search. -/
def seeking : Cluster := ({ epoch := 0 } : Cluster).run searching

/-- What it finds. -/
def sought : Batch where
  events := [⟨1, "a", routingHash "a", []⟩]
  agentId := some 1
  assignment := some ⟨1, 0, by decide⟩

/-- Its sink refuses the batch, the event is deleted and another one is added, and the sink
    refuses the batch again. -/
def refusing : List Event :=
  [.turn 0 0, .deleteEvents [1], .enqueue ["k"], .tick, .turn 0 0, .turn 0 0, .turn 0 0,
    .turn 0 0]

end Cluster

end OutboxCluster
