import OutboxCluster.Proofs.Atomic
import OutboxCluster.Proofs.Drain
import OutboxCluster.Proofs.Landing

/-!
# The Margin of a Lease

Where no use of the tables fails or takes time, a lease never comes near its end, however
long the sinks take. A lease is written at a pulse or at a renewal, and the next one of them
is begun when it is due, at the head of the loop or while the sink has a batch. So what is
left of a lease is never less than its length without the time between two pulses, and
settings that were checked make that at least twice this time.

So nobody ever finds the lease of a worker over: neither a peer, which would remove the
record, nor the worker itself, which would give up the batch that its sink has. A record is
gone only when its worker has left.

A sink that never comes back is one that takes longer than the run: within a run the two
cannot be told apart.

A pulse breaks down over a lease that has been over for longer than the largest reading of the
clock. No lease ends before the clock of the run began, so in a run that is not longer than
that nobody breaks down.

Agents may be dynamic or configured, and both at once. Which shard they work on makes no
difference to their leases.

## Main definitions

* `Cluster.Roomy`: The clock is far from its largest reading.
* `Cluster.Event.KeepsAgents`: An event that leaves the records alone.
* `Worker.Ahead`: What is left of the lease of a worker.
* `Cluster.Recent`, `Cluster.Whole`: No lease is too old, and nobody has broken down.

## Theorems

* `leased_step`: Every event keeps up the leases.
* `spared_step`: A record is gone only when its worker has left.
* `losses_step`: No batch is given up.
* `whole_step`: No pulse breaks down.
* `slow_sinks_keep_leases`: All of that, in every run.
-/

namespace OutboxCluster

/-- The worker has its record, and what is left of its lease, in the table and by the
    deadline that it knows of, is at least what the lease has more than the time between two
    pulses. -/
structure Worker.Ahead (w : Worker) (a : Agent) (t : AgentTable) (wall : Int) (now : Nat) :
    Prop where
  holds : t.Holds a
  self : w.link.selfId = some a.id
  agentId : w.link.snapshot.agentId = some a.id
  record : (w.settings.pulseExpiration : Int) - w.settings.pulseInterval ≤ a.expiration - wall
  deadline : ∃ deadline, w.link.snapshot.leaseDeadline = some deadline ∧
    (w.settings.pulseExpiration : Int) - w.settings.pulseInterval ≤ (deadline : Int) - now
  twice : 2 * (w.settings.pulseInterval : Int) ≤
    w.settings.pulseExpiration - w.settings.pulseInterval

/-- A record that was written a while before the largest reading of the clock. -/
theorem Worker.Registered.ahead {w : Worker} {static : Bool} {a : Agent} {t : AgentTable}
    {wall : Int} {now : Nat} (h : w.Registered static a t wall now) (hchecked : w.Checked)
    (hwall : wall + maxIntervalMs.toNat ≤ maxReading) : w.Ahead a t wall now := by
  rcases h.lease with ⟨deadline, hdeadline, _, hmargin, hlease⟩
  have htimely := h.timely
  have hthrice := hchecked.thrice
  have hbounded := hchecked.bounded
  have hweek : maxIntervalMs.toNat = 604800000 := rfl
  refine ⟨h.holds, h.self, h.agentId, ?_, ⟨deadline, hdeadline, ?_⟩, ?_⟩
  · rcases hlease with hmax | hle <;> omega
  · omega
  · omega

/-- A lease does not end before it is written. -/
theorem Link.le_leaseEnd (l : Link) {now : Int} (hnow : now ≤ maxReading) :
    now ≤ l.leaseEnd now := by
  unfold leaseEnd saturate
  simp only [minReading, maxReading] at *
  omega

/-- Whoever writes, no lease ends before some instant that has come. -/
theorem Link.Touches.recent {l l' : Link} {wall earliest : Int} {t t' : AgentTable}
    (h : l.Touches wall t l' t') (hord : t.Ordered) (hcome : earliest ≤ wall)
    (hwall : wall ≤ maxReading) (hrecent : ∀ p ∈ t.rows, earliest ≤ p.2.expiration) :
    ∀ p ∈ t'.rows, earliest ≤ p.2.expiration := by
  have hend : earliest ≤ l.leaseEnd wall := Int.le_trans hcome (l.le_leaseEnd hwall)
  intro p hp
  cases h with
  | nothing => exact hrecent p hp
  | wrote hwrites _ _ =>
      rcases (hwrites.mem_rows hord).mp hp with rfl | ⟨_, hbefore, _⟩
      · rcases hwrites.decides hord with ⟨_, _, _, _, hme, _⟩
        rw [hme]
        exact hend
      · exact hrecent p hbefore
  | renewed hrenews =>
      rcases hrenews.mem_rows hord with ⟨_, _, _, hrows⟩
      rcases (hrows p).mp hp with rfl | ⟨hbefore, _⟩
      · exact hend
      · exact hrecent p hbefore
  | left _ htable =>
      rcases htable with rfl | rfl
      · exact hrecent p (Table.mem_delete.mp hp).1
      · exact hrecent p hp

/-- No pulse breaks down over leases that do not end long before it. -/
theorem Link.not_overflows {l : Link} {now earliest : Int} {access : Access} {t : AgentTable}
    (hrecent : ∀ p ∈ t.rows, earliest ≤ p.2.expiration) (hspan : now - earliest ≤ maxReading) :
    ¬ l.Overflows now access t := by
  rintro ⟨_, _, agents, hlist, a, ha, htells⟩
  have hrow : (a.id, a.row) ∈ t.rows :=
    (List.mem_filter.mp (AgentTable.list_eq_ok_iff.mp hlist ▸ List.mem_map_of_mem ha)).1
  have hend : earliest ≤ a.expiration := hrecent _ hrow
  refine htells fun hover => Or.inr ?_
  have hover : a.expiration < now := of_decide_eq_true hover
  simp only [IsReading, minReading, maxReading] at *
  omega

namespace Cluster

variable {static : Bool} {bound : Nat} {c c' : Cluster} {node : Node} {worker : Worker}
  {skip : Nat} {others : List (String × Worker)} {e : Event} {events : List Event}

/-- No use of the tables fails or takes time, the clocks go together, and the wall clock is
    as far from its largest reading as the longest interval of the settings. -/
structure Roomy (c : Cluster) : Prop where
  hosts : ∀ node ∈ c.nodes, node.body.workers ≠ [] → node.host.Calm
  room : c.epoch + c.now + maxIntervalMs.toNat ≤ maxReading

instance (c : Cluster) : Decidable c.Roomy :=
  decidable_of_iff
    ((∀ node ∈ c.nodes, node.body.workers.isEmpty = false → node.host.Calm) ∧
      c.epoch + c.now + maxIntervalMs.toNat ≤ maxReading)
    ⟨fun h => ⟨fun node hnode hne => h.1 node hnode (List.isEmpty_eq_false_iff.mpr hne), h.2⟩,
      fun h => ⟨fun node hnode hne => h.hosts node hnode (List.isEmpty_eq_false_iff.mp hne),
        h.room⟩⟩

theorem Roomy.prompt (h : c.Roomy) : c.Prompt := by
  have hroom := h.room
  exact ⟨h.hosts, by omega⟩

/-- An event that leaves the records of agents alone that are there, and adds none. -/
def Event.KeepsAgents : Event → Prop
  | .putAgent _ | .deleteAgents _ => False
  | _ => True

instance (e : Event) : Decidable e.KeepsAgents :=
  match e with
  | .putAgent _ | .deleteAgents _ => instDecidableFalse
  | .addStrategy .. | .addSingle .. | .start _ | .drain _ | .stop _ | .send .. | .dropSignal _
  | .abort _ | .discard _ | .enqueue _ | .deleteEvents _ | .moveWall .. | .arm .. | .slow ..
  | .turn .. | .tick => instDecidableTrue

theorem Event.KeepsAgents.agents_eq (h : e.KeepsAgents) (t : AgentTable) : e.agents t = t := by
  cases e with
  | putAgent row => exact h.elim
  | deleteAgents ids => exact h.elim
  | _ => rfl

/-- No lease in the table ends before the clock began. -/
def Recent (c : Cluster) : Prop := ∀ p ∈ c.agents.rows, c.epoch ≤ p.2.expiration

/-- Nobody has broken down in a pulse, unless more time has passed than the clock can tell. -/
def Whole (c : Cluster) : Prop :=
  (c.now : Int) ≤ maxReading → ∀ p ∈ c.crew, p.2.wait ≠ .over .overflown

/-- What is known of a cluster in which leases are kept up. Agents may be of both kinds. -/
structure Kept (bound : Nat) (c : Cluster) : Prop where
  distinct : c.Distinct
  custody : c.Custody bound
  leased : c.Leased false
  recent : c.Recent
  whole : c.Whole

theorem kept_init (bound : Nat) (epoch : Int) : ({ epoch } : Cluster).Kept bound where
  distinct := distinct_init epoch {} {}
  custody := custody_init bound epoch {} {}
  leased := leased_init false epoch
  recent := fun _ hp => absurd hp List.not_mem_nil
  whole := fun _ _ hp => absurd hp List.not_mem_nil

/-- That the agents are all configured is asked of nobody. -/
theorem graded_false (c : Cluster) : c.Graded false := fun h => absurd h Bool.false_ne_true

/-- A worker does not break down in its turn, as long as leases are kept up. -/
theorem Turned.whole (hturned : Turned bound c c' node worker skip others) (h : c.Kept bound)
    (hspan : (c.now : Int) ≤ maxReading) (hbefore : worker.wait ≠ .over .overflown) :
    (c.scene node worker skip).resume.worker.wait ≠ .over .overflown := by
  intro hwait
  have hsound : (c.scene node worker skip).worker.Sound (c.scene node worker skip).host.name
      (c.scene node worker skip).journal (c.scene node worker skip).now bound :=
    h.custody.sound node hturned.node_mem worker hturned.worker_mem
  rcases Scene.outcome_of_resume hsound (by rw [hwait]; rfl) with
    ⟨_, _, hsame⟩ | ⟨due, started, wall, hpulsing, hbroken, _⟩ | ⟨_, _, _, _, _, hdeleted, _⟩
  · rw [hsame] at hwait
    exact hbefore hwait
  · -- The pulse has begun in this turn, and no lease has been over for that long.
    have hcrew := mem_crew_of_mem hturned.node_mem hturned.worker_mem
    have htimely := (h.leased.workers _ hcrew).timely
    rw [Worker.Timely, show worker.wait = .pulsing due started wall from hpulsing] at htimely
    have hoverflows := (Link.through_pulse_iff h.leased.ordered).2.mp
      (Link.broken_pulse_iff.mp hbroken)
    have hshort : wall - c.epoch ≤ maxReading := by
      rw [htimely.2.2]
      omega
    exact Link.not_overflows h.recent hshort hoverflows
  · cases hwait.symm.trans hdeleted

theorem whole_step (h : c.Kept bound) (hopens : c.OpensWithin bound) :
    (c.perform e).2.Whole := by
  rcases step_cases h.distinct h.custody hopens e with hout | ⟨node, worker, skip, others, hturned⟩
  · intro hspan p hp
    have hbefore : (c.now : Int) ≤ maxReading := by
      rcases hout.now_cases with heq | ⟨_, heq⟩ <;> omega
    rcases hout.crew.mem_cases hp with ⟨q, hq, hshifted⟩ | hbrings
    · cases hshifted with
      | same => exact h.whole hbefore _ hq
      | started _ => exact Wait.noConfusion
      | ended _ => exact fun heq => nomatch heq
    · rcases hbrings.fresh.1 with heq | heq <;> rw [heq] <;> exact Wait.noConfusion
  · intro hspan p hp
    rw [hturned.now_eq] at hspan
    rcases List.mem_cons.mp (hturned.crew_after.mem_iff.mp hp) with rfl | hother
    · exact hturned.whole h hspan
        (h.whole hspan _ (mem_crew_of_mem hturned.node_mem hturned.worker_mem))
    · exact h.whole hspan p (hturned.crew_before.mem_iff.mpr (List.mem_cons_of_mem _ hother))

/-- Every event keeps up the leases. -/
theorem kept_step (h : c.Kept bound) (hopens : c.OpensWithin bound) (hkeeps : e.KeepsAgents)
    (hprompt : c.Prompt) (hprompt' : (c.perform e).2.Prompt) : (c.perform e).2.Kept bound where
  distinct := distinct_step h.distinct h.custody hopens e
  custody := custody_step h.custody hopens e
  leased := by
    rcases step_cases h.distinct h.custody hopens e
      with hout | ⟨node, worker, skip, others, hturned⟩
    · exact h.leased.outside (hout.agents_eq.trans (hkeeps.agents_eq _)) hout
    · exact h.leased.turned hprompt (graded_false c) h.custody hprompt' hturned
  recent := by
    rcases step_cases h.distinct h.custody hopens e
      with hout | ⟨node, worker, skip, others, hturned⟩
    · rw [Recent, hout.epoch_eq, hout.agents_eq, hkeeps.agents_eq]
      exact h.recent
    · rw [Recent, hturned.epoch_eq]
      exact (hturned.touches h.leased hprompt (graded_false c) h.custody hprompt').recent
        h.leased.ordered (by omega) hprompt.wall_le h.recent
  whole := whole_step h hopens

/-- Every worker that has pulsed and has not come to its end has its record, and its lease is
    ahead of time. -/
def Margins (c : Cluster) : Prop :=
  ∀ p ∈ c.crew, p.2.isOver = false →
    (p.2.link.selfId = none ∧ p.2.isFresh = true) ∨
      ∃ a, p.2.Ahead a c.agents (c.epoch + c.now) c.now

theorem Kept.margins (h : c.Kept bound) (hroomy : c.Roomy) : c.Margins := by
  intro p hp hnot
  have hattended := h.leased.workers p hp
  rcases hattended.fit hnot with hnew | ⟨a, hreg⟩
  · exact Or.inl ⟨hnew.self, hnew.fresh⟩
  · exact Or.inr ⟨a, hreg.ahead hattended.checked hroomy.room⟩

/-- A worker that has its record and has not come to its end keeps it, unless it leaves. The
    next one known by its name is that worker with that record still, or it has come to its
    end, or it has only just come. -/
def Spares (c : Cluster) (e : Event) : Prop :=
  ∀ p ∈ c.crew, p.2.isOver = false → ∀ id, p.2.link.selfId = some id →
    (id ∈ (c.perform e).2.agents.ids ∨
      ∃ p' ∈ (c.perform e).2.crew, post p' = post p ∧ p'.2.link.snapshot = .departed) ∧
    ∀ p' ∈ (c.perform e).2.crew, post p' = post p →
      p'.2.link.selfId = some id ∨ p'.2.isOver = true ∨ p'.2.wait = .held ∨ p'.2.wait = .launched

/-- What a turn does with a record whose lease is not over: the worker keeps it, or it
    leaves. -/
theorem keeps_or_leaves {t t' : AgentTable} {wall : Int} {now : Nat} {l' : Link} {a : Agent}
    (hord : t.Ordered) (hwall : wall ≤ maxReading)
    (htouches : worker.link.Touches wall t l' t')
    (hreg : worker.Registered static a t wall now) :
    (a.id ∈ t'.ids ∧ l'.selfId = some a.id) ∨ (l'.selfId = none ∧ l'.snapshot = .departed) := by
  cases htouches with
  | nothing => exact Or.inl ⟨Table.mem_ids_of_mem hreg.holds, hreg.self⟩
  | wrote hwrites _ _ =>
      -- The record is live, so the pulse has gone on with it.
      have hid := (hreg.goes_on hord hwall hwrites).1
      rw [← hid]
      exact Or.inl ⟨Table.mem_ids_of_mem (hwrites.holds hord), rfl⟩
  | renewed hrenews =>
      rcases hrenews.mem_rows hord with ⟨me, hself, hheld, hrows⟩
      have hid : a.id = me.id := Option.some.inj (hreg.self.symm.trans hself)
      refine Or.inl ⟨?_, hreg.self⟩
      rw [hid]
      exact Table.mem_ids_of_mem ((hrows _).mpr (Or.inl rfl))
  | left _ _ => exact Or.inr ⟨rfl, rfl⟩

/-- The worker of a turn keeps its record, unless it leaves and comes to its end. -/
theorem Turned.spares_own (hturned : Turned bound c c' node worker skip others) (h : c.Kept bound)
    (hprompt : c.Prompt) (hprompt' : c'.Prompt) (hnext : c'.Kept bound) {a : Agent}
    (hreg : worker.Registered false a c.agents (c.epoch + c.now) c.now) :
    (a.id ∈ c'.agents.ids ∧ (c.scene node worker skip).resume.worker.link.selfId = some a.id) ∨
    ((c.scene node worker skip).resume.worker.link.snapshot = .departed ∧
      (c.scene node worker skip).resume.worker.isOver = true) := by
  have htouches := hturned.touches h.leased hprompt (graded_false c) h.custody hprompt'
  have hmem := hturned.crew_after.mem_iff.mpr List.mem_cons_self
  refine (keeps_or_leaves h.leased.ordered hprompt.wall_le htouches hreg).imp id ?_
  rintro ⟨hself, hdeparted⟩
  -- Who goes on knows its record, or has never had one.
  refine ⟨hdeparted, ?_⟩
  by_contra hnot
  rcases (hnext.leased.workers _ hmem).fit (Bool.eq_false_iff.mpr hnot) with hnew | ⟨a', hreg'⟩
  · exact nomatch hdeparted.symm.trans hnew.snapshot
  · exact nomatch hself.symm.trans hreg'.self

/-- Nobody's record is taken away before its lease is over, and no lease ever is. -/
theorem spared_step (h : c.Kept bound) (hopens : c.OpensWithin bound) (hkeeps : e.KeepsAgents)
    (hprompt : c.Prompt) (hprompt' : (c.perform e).2.Prompt) : c.Spares e := by
  intro p hp hnot id hself
  have hnext := kept_step h hopens hkeeps hprompt hprompt'
  have hunique : ∀ q ∈ c.crew, post q = post p → q = p :=
    fun q hq => List.inj_on_of_nodup_map h.distinct.posts hq hp
  rcases (h.leased.workers p hp).fit hnot with hnew | ⟨a, hreg⟩
  · exact nomatch hnew.self.symm.trans hself
  · rw [Option.some.inj (hself.symm.trans hreg.self)]
    rcases step_cases h.distinct h.custody hopens e
      with hout | ⟨node, worker, skip, others, hturned⟩
    · refine ⟨Or.inl ?_, fun p' hp' hpost => ?_⟩
      · rw [hout.agents_eq, hkeeps.agents_eq]
        exact Table.mem_ids_of_mem hreg.holds
      · rcases hout.crew.mem_cases hp' with ⟨q, hq, hshifted⟩ | hbrings
        · rw [hshifted.link_eq, hunique q hq (hshifted.post_eq.symm.trans hpost)]
          exact Or.inl hreg.self
        · exact Or.inr (Or.inr hbrings.fresh.1)
    · have hname : post (node.host.name, (c.scene node worker skip).resume.worker) =
          post (node.host.name, worker) :=
        congrArg (Prod.mk node.host.name) hturned.settles.follows.worker_eq
      have hcrew : ∀ q ∈ others, q ∈ c.crew := fun q hq =>
        hturned.crew_before.mem_iff.mpr (List.mem_cons_of_mem _ hq)
      have hmem := hturned.crew_after.mem_iff.mpr List.mem_cons_self
      have hown := mem_crew_of_mem hturned.node_mem hturned.worker_mem
      rcases List.mem_cons.mp (hturned.crew_before.mem_iff.mp hp) with rfl | hother
      · have hspared := hturned.spares_own h hprompt hprompt' hnext hreg
        refine ⟨hspared.imp (·.1) fun hleft => ⟨_, hmem, hname, hleft.1⟩, fun p' hp' hpost => ?_⟩
        rcases List.mem_cons.mp (hturned.crew_after.mem_iff.mp hp') with rfl | hbeside
        · exact hspared.imp (·.2) fun hleft => Or.inl hleft.2
        · rw [hunique p' (hcrew p' hbeside) hpost]
          exact Or.inl hreg.self
      · have htouches := hturned.touches h.leased hprompt (graded_false c) h.custody hprompt'
        have hafter := h.leased.beside hprompt (graded_false c) hturned htouches hother hreg
        refine ⟨Or.inl (Table.mem_ids_of_mem hafter.holds), fun p' hp' hpost => ?_⟩
        rcases List.mem_cons.mp (hturned.crew_after.mem_iff.mp hp') with rfl | hbeside
        · -- Nobody else is known by the name of the worker of the turn.
          have hsame := hunique _ hown (hname.symm.trans hpost)
          subst hsame
          exact absurd hreg.self (h.leased.other hturned.crew_before hother hreg.self)
        · rw [hunique p' (hcrew p' hbeside) hpost]
          exact Or.inl hreg.self

/-- No batch is given up because the shard may be lost. -/
theorem losses_step (h : c.Kept bound) (hopens : c.OpensWithin bound) (hprompt : c.Prompt)
    (hprompt' : (c.perform e).2.Prompt) : (c.perform e).2.journal.losses = c.journal.losses := by
  rcases perform_cases h.distinct h.custody hopens e
    with hturn | ⟨n, i, skip, rfl, heq⟩ | ⟨node, worker, skip, others, hturned⟩
  · exact losses_perform hturn
  · rw [heq]
  · rw [hturned.journal_eq]
    exact (hturned.tends h.leased hprompt (graded_false c) h.custody hprompt').losses_eq

theorem kept_run (h : c.Kept bound) (hopens : Always (OpensWithin bound) c events)
    (hroomy : Always Roomy c events) (hkeeps : ∀ e ∈ events, e.KeepsAgents) :
    Always Margins c events ∧ Along Spares c events ∧
      (c.run events).journal.losses = c.journal.losses ∧ Always Whole c events := by
  induction events generalizing c with
  | nil => exact ⟨h.margins hroomy, trivial, rfl, h.whole⟩
  | cons e events ih =>
      have hfirst := hkeeps e List.mem_cons_self
      have hprompt := hroomy.1.prompt
      have hprompt' := hroomy.2.head.prompt
      have hnext := kept_step h hopens.1 hfirst hprompt hprompt'
      rcases ih hnext hopens.2 hroomy.2 fun e he => hkeeps e (List.mem_cons_of_mem _ he)
        with ⟨hmargins, hspares, hlosses, hwhole⟩
      exact ⟨⟨h.margins hroomy.1, hmargins⟩,
        ⟨spared_step h hopens.1 hfirst hprompt hprompt', hspares⟩,
        hlosses.trans (losses_step h hopens.1 hprompt hprompt'), h.whole, hwhole⟩

/-- Any number of workers of either kind come, stop, give up and are ended, and their sinks
    take as long as they like. As long as nothing else takes time and nothing fails, whoever
    has pulsed and has not come to its end has its record, with a lease that is ahead of time
    by at least its length without the time between two pulses; a record is gone only when its
    worker has left; no batch is given up because the shard may be lost; and no pulse breaks
    down. -/
theorem slow_sinks_keep_leases (epoch : Int) (events : List Event)
    (hroomy : Always Roomy { epoch } events) (hkeeps : ∀ e ∈ events, e.KeepsAgents) :
    Always Margins { epoch } events ∧ Along Spares { epoch } events ∧
      (({ epoch } : Cluster).run events).journal.losses = [] ∧ Always Whole { epoch } events := by
  rcases exists_always_opensWithin { epoch } events with ⟨bound, hopens⟩
  exact kept_run (kept_init bound epoch) hopens hroomy hkeeps

/-- The sink of a dynamic agent is slow. A configured agent comes, with a total of its own. -/
def crawling : List Event :=
  [.addSingle { name := "a", sink := .scripted [] { delay := 100 } } (brisk 0) "a" none,
    .addSingle { name := "b", sink := .reporting } (brisk 0) "b"
      (some ⟨2, 1, Assignment.second_lt⟩),
    .enqueue ["k"], .start "a"] ++ milliseconds 3 ++ [.start "b"] ++ milliseconds 3

/-- Its sink has the batch for longer than a lease lasts. -/
theorem slow_sinks_keep_leases_crawling :
    Always Roomy { epoch := 0 } crawling ∧ (∀ e ∈ crawling, e.KeepsAgents) ∧
    (({ epoch := 0 } : Cluster).run crawling).crew.map (fun p => p.2.atSink?.isSome) =
      [true, false] ∧
    Always Margins { epoch := 0 } crawling ∧ Along Spares { epoch := 0 } crawling ∧
      (({ epoch := 0 } : Cluster).run crawling).journal.losses = [] ∧
      Always Whole { epoch := 0 } crawling := by
  have hroomy : Always Roomy { epoch := 0 } crawling := by decide +kernel
  have hkeeps : ∀ e ∈ crawling, e.KeepsAgents := by decide +kernel
  exact ⟨hroomy, hkeeps, by decide +kernel, slow_sinks_keep_leases 0 crawling hroomy hkeeps⟩

end Cluster

end OutboxCluster
