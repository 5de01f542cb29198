import OutboxCluster.Proofs.Balance
import Mathlib.Data.List.Infix
import Mathlib.Data.List.Perm.Basic

/-!
# Exactly Once

Workers drain the outbox, and whenever time can pass, every event that was ever added is
either still there or was accepted by a sink, once. And whoever is there has counted what
its own sink has accepted since it came.

Both hold as long as nothing fails and takes no time, and nobody is given back its claim
on a batch that it has kept (`Cluster.Steadfast`). The last condition is one that runs do
break: a dynamic agent whose batch has failed may rest for so long that meanwhile another
one comes, takes over its shard, hands on the events, and leaves. The first agent has its
shard back then before its next cycle begins, finds that agent and shard of its batch are
those that it has, and hands on what was handed on before. Nothing asks whether the events
are still there.

## Main definitions

* `Cluster.Along`: A rule that is kept by a run.
* `Cluster.Since`: How long a worker has been there.

## Theorems

* `counted_step`, `counted_run`: A worker counts what was accepted from it.
* `drained_exactly_once`: Every event is in the outbox or was accepted once.
* `regained_accepted_twice`: A batch whose shard was lost and regained.
-/

namespace OutboxCluster

namespace Cluster

variable {static : Bool} {bound : Nat} {c c' : Cluster} {node : Node} {worker : Worker}
  {skip : Nat} {others : List (String × Worker)} {e : Event} {events : List Event}

/-- A rule is kept by every event of a run, in the state in which it happens. -/
def Along (rule : Cluster → Event → Prop) : Cluster → List Event → Prop
  | _, [] => True
  | c, e :: events => rule c e ∧ Along rule (c.perform e).2 events

instance Along.decidable (rule : Cluster → Event → Prop) [∀ c e, Decidable (rule c e)] :
    ∀ c events, Decidable (Along rule c events)
  | _, [] => .isTrue trivial
  | c, e :: events =>
    have := decidable rule (c.perform e).2 events
    inferInstanceAs (Decidable (rule c e ∧ _))

instance Always.decidable (P : Cluster → Prop) [∀ c, Decidable (P c)] :
    ∀ c events, Decidable (Always P c events)
  | c, [] => inferInstanceAs (Decidable (P c))
  | c, e :: events =>
    have := decidable P (c.perform e).2 events
    inferInstanceAs (Decidable (P c ∧ _))

/-- A run in two parts. -/
theorem Along.append {rule : Cluster → Event → Prop} {before : List Event}
    (h : Along rule c (before ++ events)) :
    Along rule c before ∧ Along rule (c.run before) events := by
  induction before generalizing c with
  | nil => exact ⟨trivial, h⟩
  | cons e before ih => exact ⟨⟨h.1, (ih h.2).1⟩, (ih h.2).2⟩

/-- All that is known of a cluster in which nothing fails. -/
structure Sane (static : Bool) (bound : Nat) (c : Cluster) : Prop where
  distinct : c.Distinct
  custody : c.Custody bound
  upkept : c.Upkept static
  balanced : c.Balanced

theorem sane_init (static : Bool) (bound : Nat) (epoch : Int) :
    ({ epoch } : Cluster).Sane static bound where
  distinct := distinct_init epoch {} {}
  custody := custody_init bound epoch {} {}
  upkept := upkept_init static epoch
  balanced := balanced_init epoch

theorem sane_step (h : c.Sane static bound) (hopens : c.OpensWithin bound) (hcalm : c.Calm static)
    (hcalm' : (c.perform e).2.Calm static) (hgentle : c.Gentle e) (hsteadfast : c.Steadfast e) :
    (c.perform e).2.Sane static bound where
  distinct := distinct_step h.distinct h.custody hopens e
  custody := custody_step h.custody hopens e
  upkept := upkept_step h.upkept h.distinct h.custody hopens hgentle.keeps hcalm hcalm'
  balanced := balanced_step h.balanced h.upkept h.distinct h.custody hopens hcalm hgentle hsteadfast

theorem Always.head {P : Cluster → Prop} (h : Always P c events) : P c := by
  cases events with
  | nil => exact h
  | cons e events => exact h.1

theorem sane_run (h : c.Sane static bound) (hopens : Always (OpensWithin bound) c events)
    (hcalm : Always (Calm static) c events) (hgentle : Along Gentle c events)
    (hsteadfast : Along Steadfast c events) : (c.run events).Sane static bound := by
  induction events generalizing c with
  | nil => exact h
  | cons e events ih =>
      have hnext := sane_step h hopens.1 hcalm.1 hcalm.2.head hgentle.1 hsteadfast.1
      exact ih hnext hopens.2 hcalm.2 hgentle.2 hsteadfast.2

section Counts

variable {p p' : String × Worker}

theorem Outside.lastId (hout : Outside e c c') (hkeeps : e.KeepsTables) :
    c'.outbox.lastId = c.outbox.lastId + e.enqueued.length := by
  rw [hout.outbox_eq]
  exact (hkeeps.grows c.outbox).lastId

/-- Every event that is added gets an id, and nothing else does. -/
theorem lastId_step (h : c.Sane static bound) (hopens : c.OpensWithin bound)
    (hcalm : c.Calm static) (hkeeps : e.KeepsTables) :
    (c.perform e).2.outbox.lastId = c.outbox.lastId + e.enqueued.length := by
  by_cases hturn : ∀ n i skip, e ≠ .turn n i skip
  · exact (outside_step h.distinct hturn).lastId hkeeps
  · rcases step_cases h.distinct h.custody hopens e
      with hout | ⟨node, worker, skip, others, hturned⟩
    · exact hout.lastId hkeeps
    · have hnone : e.enqueued = [] := by
        cases e with
        | turn n i skip => rfl
        | _ => exact absurd (fun _ _ _ => Event.noConfusion) hturn
      have hsame := (hturned.drains h.upkept hcalm h.custody).lastId
      rw [hturned.outbox_eq, hsame, hnone]
      exact (Int.add_zero _).symm

theorem lastId_run (h : c.Sane static bound) (hopens : Always (OpensWithin bound) c events)
    (hcalm : Always (Calm static) c events) (hgentle : Along Gentle c events)
    (hsteadfast : Along Steadfast c events) :
    (c.run events).outbox.lastId = c.outbox.lastId + (events.flatMap Event.enqueued).length := by
  induction events generalizing c with
  | nil => exact (Int.add_zero _).symm
  | cons e events ih =>
      have hnext := sane_step h hopens.1 hcalm.1 hcalm.2.head hgentle.1 hsteadfast.1
      have hrest := ih hnext hopens.2 hcalm.2 hgentle.2 hsteadfast.2
      rw [lastId_step h hopens.1 hcalm.1 hgentle.1.keeps] at hrest
      rw [List.flatMap_cons, List.length_append, Int.natCast_add, ← Int.add_assoc]
      exact hrest

/-- Who comes takes nobody's place. -/
theorem Event.Brings.not_mem {name : String} {w : Worker} (h : e.Brings c name w)
    (hdistinct : c.Distinct) (hgentle : c.Gentle e) : post (name, w) ∉ c.crew.map post := by
  intro hmem
  rcases List.mem_map.mp hmem with ⟨p, hp, hpost⟩
  rcases mem_crew.mp hp with ⟨node, hnode, hname, hworker⟩
  have hname : node.host.name = name := hname.trans (congrArg Prod.fst hpost)
  cases e with
  | addSingle host settings agent configured =>
      exact hgentle.fresh node hnode (hname.trans h.1)
  | start started =>
      rcases h with ⟨rfl, n, hn, hfound, s, separate, _, _, hbody, hrunning, _⟩
      -- The node that starts has had no workers, and no other one has its name.
      have hsame := List.inj_on_of_nodup_map hdistinct.nodes hnode hn (hname.trans hfound.symm)
      rw [hsame, hbody] at hworker
      have hnobody : s.workers = [] := by
        unfold Strategy.workers
        rw [Option.not_isSome_iff_eq_none.mp (Bool.eq_false_iff.mp hrunning)]
      have hworker : p.2 ∈ s.workers := hworker
      rw [hnobody] at hworker
      exact absurd hworker List.not_mem_nil
  | _ => exact h.elim

/-- What a worker has counted, or is about to count, grows by what is accepted from it. A
    worker that has just come has counted nothing. -/
theorem counted_step (h : c.Sane static bound) (hopens : c.OpensWithin bound)
    (hcalm : c.Calm static) (hgentle : c.Gentle e) (hp' : p' ∈ (c.perform e).2.crew) :
    (∃ p ∈ c.crew, post p = post p' ∧
      p'.2.stats.eventsConsumed + p'.2.uncounted + c.journal.tally (post p') =
        p.2.stats.eventsConsumed + p.2.uncounted + (c.perform e).2.journal.tally (post p')) ∨
    post p' ∉ c.crew.map post ∧
      p'.2.stats.eventsConsumed + p'.2.uncounted + c.journal.tally (post p') =
        (c.perform e).2.journal.tally (post p') := by
  rcases step_cases h.distinct h.custody hopens e with hout | ⟨node, worker, skip, others, hturned⟩
  · -- Between turns nothing is accepted.
    have hjournal : (c.perform e).2.journal.tally (post p') = c.journal.tally (post p') := by
      rcases hout.journal with ⟨ns, heq⟩
      rw [heq, Journal.tally, Journal.accepted_addNotices, Journal.tally]
    rw [hjournal]
    rcases hout.crew.mem_cases hp' with ⟨p, hp, hshifted⟩ | hbrings
    · have hcount := hshifted.counts fun hends => (hgentle.spares h.upkept hp hends).2
      exact Or.inl ⟨p, hp, hshifted.post_eq.symm, congrArg (· + c.journal.tally (post p')) hcount⟩
    · refine Or.inr ⟨hbrings.not_mem h.distinct hgentle, ?_⟩
      rw [hbrings.idle.consumed, hbrings.idle.uncounted, Nat.zero_add]
  · have hdrains := hturned.drains h.upkept hcalm h.custody
    have hname : (c.scene node worker skip).resume.worker.name = worker.name :=
      hturned.settles.follows.worker_eq
    have hstamp : (c.scene node worker skip).stamp.post = post (node.host.name, worker) := rfl
    rw [hturned.journal_eq]
    rcases List.mem_cons.mp (hturned.crew_after.mem_iff.mp hp') with rfl | hother
    · have hpost : post (node.host.name, (c.scene node worker skip).resume.worker) =
          post (node.host.name, worker) := congrArg (Prod.mk node.host.name) hname
      have htally := hdrains.tally
      rw [hstamp] at htally
      rw [hpost]
      exact Or.inl ⟨_, mem_crew_of_mem hturned.node_mem hturned.worker_mem, rfl, htally⟩
    · -- Nobody else is known by the name of the worker of the turn.
      have hne : (c.scene node worker skip).stamp.post ≠ post p' := by
        have hposts := (hturned.crew_before.map post).nodup_iff.mp h.distinct.posts
        rw [List.map_cons, List.nodup_cons] at hposts
        rintro heq
        exact hposts.1 (List.mem_map.mpr ⟨p', hother, heq.symm.trans hstamp⟩)
      have hmem : p' ∈ c.crew := hturned.crew_before.mem_iff.mpr (List.mem_cons_of_mem _ hother)
      refine Or.inl ⟨p', hmem, rfl, ?_⟩
      rw [hdrains.tally_of_ne hne]
      rfl

/-- The worker of this name has come at once after the events of `before`, and has been
    there ever since. -/
structure Since (c : Cluster) (who : String × String) (before after : List Event) : Prop where
  absent : who ∉ (c.run before).crew.map post
  present : ∀ mid, mid <+: after → mid ≠ [] → who ∈ (c.run (before ++ mid)).crew.map post

theorem Since.concat {who : String × String} {before after : List Event}
    (h : c.Since who before after)
    (hmem : who ∈ (c.run (before ++ (after ++ [e]))).crew.map post) :
    c.Since who before (after ++ [e]) := by
  refine ⟨h.absent, fun mid hmid hne => ?_⟩
  rcases List.prefix_concat_iff.mp hmid with rfl | hbefore
  · exact hmem
  · exact h.present mid hbefore hne

/-- Every worker has counted, or is about to count, what was accepted from it since it
    came. The induction is on the run from its end, because a worker that is there may have
    come at any time. -/
theorem counted_run (h : c.Sane static bound) (hempty : c.crew = [])
    (hopens : Always (OpensWithin bound) c events) (hcalm : Always (Calm static) c events)
    (hgentle : Along Gentle c events) (hsteadfast : Along Steadfast c events) :
    ∀ p ∈ (c.run events).crew, ∃ before after, events = before ++ after ∧
      c.Since (post p) before after ∧
      p.2.stats.eventsConsumed + p.2.uncounted + (c.run before).journal.tally (post p) =
        (c.run events).journal.tally (post p) := by
  induction events using List.reverseRecOn with
  | nil =>
      intro p hp
      have hp : p ∈ c.crew := hp
      rw [hempty] at hp
      exact absurd hp List.not_mem_nil
  | append_singleton events e ih =>
      rcases hopens.append with ⟨hopens, hopens'⟩
      rcases hcalm.append with ⟨hcalm, hcalm'⟩
      rcases hgentle.append with ⟨hgentle, hgentle'⟩
      rcases hsteadfast.append with ⟨hsteadfast, _⟩
      have hsane := sane_run h hopens hcalm hgentle hsteadfast
      have hrun : c.run (events ++ [e]) = ((c.run events).perform e).2 := run_append c events [e]
      intro p' hp'
      have hmem : post p' ∈ (c.run (events ++ [e])).crew.map post :=
        List.mem_map.mpr ⟨p', hp', rfl⟩
      rw [hrun] at hp'
      rcases counted_step hsane hopens'.head hcalm'.head hgentle'.1 hp'
        with ⟨p, hp, hpost, hcount⟩ | ⟨habsent, hcount⟩
      · -- The worker was there before the last event, so it has come when it came then.
        rcases ih hopens hcalm hgentle hsteadfast p hp with ⟨before, after, rfl, hsince, htally⟩
        rw [hpost] at hsince htally
        rw [List.append_assoc] at hmem
        refine ⟨before, after ++ [e], List.append_assoc _ _ _, hsince.concat hmem, ?_⟩
        rw [hrun]
        omega
      · -- It has come with the last event.
        refine ⟨events, [e], rfl, ⟨habsent, fun mid hmid hne => ?_⟩, ?_⟩
        · rcases List.prefix_concat_iff.mp (show mid <+: [] ++ [e] from hmid) with rfl | hnil
          · exact hmem
          · exact absurd (List.prefix_nil.mp hnil) hne
        · rw [hrun]
          exact hcount

end Counts

/-- When time can pass nobody is about to delete or to count anything. -/
theorem Sane.quiet (h : c.Sane static bound) (hquiet : c.isQuiet = true) {p : String × Worker}
    (hp : p ∈ c.crew) : p.2.deleting? = none ∧ p.2.uncounted = 0 := by
  rcases mem_crew.mp hp with ⟨node, hnode, _, hworker⟩
  have hlater : ∀ due, p.2.dueAt node.body.signal = some due → c.now < due :=
    fun due hdue => lt_of_isQuiet hquiet hnode hworker hdue
  exact (h.upkept.workers p hp).nothing_due hlater

/-- The ids that were given to so many events. -/
def idsUpTo (n : Nat) : List Int := (List.range n).map fun i : Nat => (i : Int) + 1

theorem mem_idsUpTo {n : Nat} {id : Int} : id ∈ idsUpTo n ↔ 1 ≤ id ∧ id ≤ n := by
  simp only [idsUpTo, List.mem_map, List.mem_range]
  constructor
  · rintro ⟨i, hi, rfl⟩
    omega
  · rintro ⟨hpos, hle⟩
    exact ⟨(id - 1).toNat, by omega, by omega⟩

theorem nodup_idsUpTo (n : Nat) : (idsUpTo n).Nodup :=
  List.nodup_range.map fun _ _ heq => Int.ofNat_inj.mp ((Int.add_left_inj 1).mp heq)

/-- When time can pass every id that was given is on one side, once. -/
theorem Balanced.perm (h : c.Balanced)
    (hnobody : ∀ p ∈ c.crew, p.2.deleting? = none) {n : Nat} (hlast : c.outbox.lastId = n) :
    (c.journal.acceptedIds ++ c.outbox.ids).Perm (idsUpTo n) := by
  have hrows : c.outbox.ids.Nodup :=
    List.pairwise_map.mpr (h.ordered.ascending.imp fun hlt => Int.ne_of_lt hlt)
  have happart : (c.journal.acceptedIds ++ c.outbox.ids).Nodup := by
    refine List.nodup_append.mpr ⟨h.once, hrows, ?_⟩
    rintro id hid _ hin rfl
    rcases h.pending id hid hin with ⟨p, hp, b, hdel, _⟩
    exact nomatch (hnobody p hp).symm.trans hdel
  refine (List.perm_ext_iff_of_nodup happart (nodup_idsUpTo n)).mpr fun id => ?_
  rw [List.mem_append, h.issued id, mem_idsUpTo, hlast]

/-- Configured agents are steadfast anyway, since their shards never change. -/
theorem steadfast_of_static (hcalm : Always (Calm true) c events) : Along Steadfast c events := by
  induction events generalizing c with
  | nil => exact trivial
  | cons e events ih =>
      refine ⟨fun p hp _ _ _ hdynamic => ?_, ih hcalm.2⟩
      have hconf := hcalm.1.links p hp
      rw [hdynamic] at hconf
      exact nomatch hconf

/-- Any number of workers, all of them configured or all dynamic, come, fail, stop, give up
    and are ended while they wait for time. As long as nothing fails or takes time but the
    sinks, and no dynamic agent is given back its claim on a batch that it has kept, every
    event that was added is in the outbox or was accepted, and none was accepted twice.
    And whoever is there has counted what was accepted from it since it came. -/
theorem drained_exactly_once (static : Bool) (epoch : Int) (events : List Event)
    (hcalm : Always (Calm static) { epoch } events)
    (hgentle : Along Gentle { epoch } events)
    (hsteadfast : static = false → Along Steadfast { epoch } events)
    (hquiet : (({ epoch } : Cluster).run events).isQuiet = true) :
    ((({ epoch } : Cluster).run events).journal.acceptedIds ++
      (({ epoch } : Cluster).run events).outbox.ids).Perm
        (idsUpTo (events.flatMap Event.enqueued).length) ∧
    ∀ p ∈ (({ epoch } : Cluster).run events).crew, ∃ before after, events = before ++ after ∧
      ({ epoch } : Cluster).Since (post p) before after ∧
      p.2.stats.eventsConsumed + (({ epoch } : Cluster).run before).journal.tally (post p) =
        (({ epoch } : Cluster).run events).journal.tally (post p) := by
  rcases exists_always_opensWithin { epoch } events with ⟨bound, hopens⟩
  have hsteadfast : Along Steadfast { epoch } events := by
    cases static with
    | false => exact hsteadfast rfl
    | true => exact steadfast_of_static hcalm
  have hinit := sane_init static bound epoch
  have hsane := sane_run hinit hopens hcalm hgentle hsteadfast
  have hlast := lastId_run hinit hopens hcalm hgentle hsteadfast
  refine ⟨hsane.balanced.perm (fun p hp => (hsane.quiet hquiet hp).1) ?_, fun p hp => ?_⟩
  · rw [hlast]
    exact Int.zero_add _
  · rcases counted_run hinit rfl hopens hcalm hgentle hsteadfast p hp
      with ⟨before, after, heq, hsince, htally⟩
    -- When all is quiet, nobody has a batch that is accepted and not yet counted.
    rw [(hsane.quiet hquiet hp).2, Nat.add_zero] at htally
    exact ⟨before, after, heq, hsince, htally⟩

/-- The settings of a node that polls and pulses every millisecond. -/
def brisk (retryDelay : UInt64) : Settings :=
  { processors := { pollingInterval := 1, pulseInterval := 1, pulseExpiration := 3, retryDelay } }

/-- The first workers of two nodes go on for so many milliseconds. -/
def milliseconds (n : Nat) : List Event :=
  (List.replicate n (List.replicate 6 (.turn 0 0) ++ List.replicate 6 (.turn 1 0) ++
    [.tick])).flatten

/-- Two agents share the events out. The first batch of one fails and is tried again, and the
    other one is ended while its sink has a batch. -/
def sharing : List Event :=
  [.addSingle { name := "a", sink := .scripted [{ ending := .refused "busy" }] {} } (brisk 0) "a"
      none,
    .addSingle { name := "b", sink := .scripted [] { delay := 5 } } (brisk 0) "b" none,
    .enqueue ["a", "k"], .start "a"] ++ milliseconds 2 ++ [.start "b"] ++ milliseconds 2 ++
    [.enqueue ["a", "k"]] ++ milliseconds 2 ++ List.replicate 6 (.turn 0 0) ++
    List.replicate 6 (.turn 1 0) ++ [.abort "b"]

theorem drained_exactly_once_sharing :
    Always (Calm false) { epoch := 0 } sharing ∧ Along Gentle { epoch := 0 } sharing ∧
    Along Steadfast { epoch := 0 } sharing ∧
    (({ epoch := 0 } : Cluster).run sharing).isQuiet = true ∧
    ((({ epoch := 0 } : Cluster).run sharing).journal.acceptedIds ++
      (({ epoch := 0 } : Cluster).run sharing).outbox.ids).Perm
        (idsUpTo (sharing.flatMap Event.enqueued).length) ∧
    ∀ p ∈ (({ epoch := 0 } : Cluster).run sharing).crew, ∃ before after,
      sharing = before ++ after ∧
      ({ epoch := 0 } : Cluster).Since (post p) before after ∧
      p.2.stats.eventsConsumed +
          (({ epoch := 0 } : Cluster).run before).journal.tally (post p) =
        (({ epoch := 0 } : Cluster).run sharing).journal.tally (post p) := by
  have hcalm : Always (Calm false) { epoch := 0 } sharing := by decide +kernel
  have hgentle : Along Gentle { epoch := 0 } sharing := by decide +kernel
  have hsteadfast : Along Steadfast { epoch := 0 } sharing := by decide +kernel
  have hquiet : (({ epoch := 0 } : Cluster).run sharing).isQuiet = true := by decide +kernel
  exact ⟨hcalm, hgentle, hsteadfast, hquiet,
    drained_exactly_once false 0 sharing hcalm hgentle (fun _ => hsteadfast) hquiet⟩

/-- The batch of one agent fails, and rests. Meanwhile another one comes, takes over the
    shard, hands on the event, and leaves. -/
def regained : List Event :=
  [.addSingle { name := "a", sink := .scripted [{ ending := .refused "busy" }] {} } (brisk 4) "a"
      none,
    .addSingle { name := "b", sink := .reporting } (brisk 0) "b" none, .enqueue ["a"],
    .start "a"] ++ milliseconds 1 ++ [.start "b"] ++ milliseconds 2 ++ [.send "b" true] ++
    milliseconds 3 ++ List.replicate 6 (.turn 0 0)

/-- The first agent hands on the event once more, since agent and shard of its batch are
    its own again. -/
theorem regained_accepted_twice :
    Always (Calm false) { epoch := 0 } regained ∧ Along Gentle { epoch := 0 } regained ∧
    (({ epoch := 0 } : Cluster).run regained).isQuiet = true ∧
    ¬ (({ epoch := 0 } : Cluster).run regained).journal.acceptedIds.Nodup := by
  decide +kernel

end Cluster

end OutboxCluster
