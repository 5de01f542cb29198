import OutboxCluster.Cluster.Event
import OutboxCluster.Proofs.Turn

/-!
# Batches under Ownership

Whatever happens to a cluster, a sink is given a batch and events are deleted only
by an agent that runs, before the end of its lease, for which the batch was found,
and within its shard. And as long as a sink has a batch, its agent runs with the
shard of the batch.

That the lease is not over while a sink has a batch is true with one exception. A
worker that waits for the session of a renewal looks at nothing else meanwhile, and
the lease may end before the session is opened. So the lease is over by no more
than a session takes to open, and if sessions are opened at once, it is not over.

Time passes only when nobody can go on, and a worker can go on at the end of its
lease. That is why an invariant of the turns is one of the runs: `isQuiet` says of
every worker that what it waits for is still to come.

## Main definitions

* `Worker.atSink?`: The batch that the sink of a worker has.
* `Cluster.OpensWithin`: How long sessions take to open.
* `Cluster.Always`: What is true of every state of a run.
* `Cluster.Custody`: The invariant.

## Theorems

* `lt_of_isQuiet`: When time can pass nobody goes on now.
* `Sound.tick`: Time passes for a worker.
* `Custody.modifyNode`, `Custody.turn`, `Custody.tick`: What keeps the invariant.
* `custody_step`, `custody_run`: Every event keeps it, and every run.
* `sinks_under_ownership`: Who has a batch at a sink owns its shard.
-/

namespace OutboxCluster

namespace Worker

/-- The batch that the sink of a worker has. -/
def atSink? (w : Worker) : Option Handover :=
  match w.wait with
  | .applying h | .renewing _ _ _ h => if h.ongoing.isSome then some h else none
  | _ => none

namespace Sound

variable {w : Worker} {node : String} {j : Journal} {now bound : Nat}

theorem mono (h : w.Sound node j now bound) {j' : Journal} (hj : j <:+ j') :
    w.Sound node j' now bound := by
  refine ⟨fun b hb => (h.kept b hb).mono hj, ?_⟩
  have hwaits := h.waits
  unfold Waits at hwaits ⊢
  cases hwait : w.wait with
  | polling due cycle => rw [hwait] at hwaits; exact hwaits
  | applying h => rw [hwait] at hwaits; exact ⟨hwaits.1.mono hj, hwaits.2⟩
  | renewing due started wall h => rw [hwait] at hwaits; exact ⟨hwaits.1.mono hj, hwaits.2⟩
  | deleting due h => rw [hwait] at hwaits; exact hwaits.mono hj
  | deleted due count h => rw [hwait] at hwaits; exact hwaits.mono hj
  | _ => exact trivial

/-- A worker that has not begun has nothing in hand. -/
theorem fresh (hretained : w.retained = none) (hwait : w.wait = .held ∨ w.wait = .launched) :
    w.Sound node j now bound := by
  refine ⟨fun b hb => (nomatch hretained.symm.trans hb), ?_⟩
  unfold Waits
  rcases hwait with heq | heq <;> rw [heq] <;> exact trivial

theorem abort (h : w.Sound node j now bound) : w.abort.Sound node j now bound := by
  unfold Worker.abort
  split
  · exact h
  · exact h
  · exact ⟨h.kept, trivial⟩

theorem discard (h : w.Sound node j now bound) : w.discard.Sound node j now bound := by
  unfold Worker.discard
  split
  · exact ⟨h.kept, trivial⟩
  · exact h

end Sound

/-- The earlier of two instants is not after either of them. -/
theorem le_of_earlier {a b : Option Nat} {x y : Nat} (h : earlier a b = some x)
    (hy : a = some y ∨ b = some y) : x ≤ y := by
  rcases a with _ | a <;> rcases b with _ | b <;> rcases hy with hy | hy <;>
    simp only [earlier, Option.some.injEq, reduceCtorEq] at h hy <;> omega

/-- A worker that can wait for another millisecond is not at the end of its lease. -/
theorem Sound.tick {w : Worker} {node : String} {j : Journal} {now bound : Nat}
    (h : w.Sound node j now bound) (signal : Signal)
    (hquiet : ∀ due, w.dueAt signal = some due → now < due) :
    w.Sound node j (now + 1) bound := by
  refine ⟨h.kept, ?_⟩
  have hwaits := h.waits
  unfold dueAt at hquiet
  unfold Waits at hwaits ⊢
  cases hwait : w.wait with
  | polling due cycle => rw [hwait] at hwaits; exact hwaits
  | deleting due h => rw [hwait] at hwaits; exact hwaits
  | deleted due count h => rw [hwait] at hwaits; exact hwaits
  | renewing due started wall h =>
      -- The end of the lease is no instant at which it goes on, but that of the session is.
      rw [hwait] at hwaits hquiet
      rcases hwaits with ⟨hheld, hstate, deadline, hdeadline, hstarted, _, hbound⟩
      exact ⟨hheld, hstate, deadline, hdeadline, hstarted, hquiet due rfl, hbound⟩
  | applying h =>
      rw [hwait] at hwaits hquiet
      rcases hwaits with ⟨hheld, hstate, deadline, hdeadline, _, _⟩
      dsimp only at hquiet
      cases hongoing : h.ongoing with
      | none =>
          rw [hongoing] at hquiet
          -- A sink that is yet to be asked is asked at once.
          exact absurd (hquiet 0 rfl) (Nat.not_lt_zero now)
      | some ongoing =>
          rw [hongoing] at hquiet
          rw [hdeadline] at hquiet
          dsimp only at hquiet
          -- The end of the lease is one of the instants at which the worker goes on.
          cases hend : earlier (some deadline) h.timeoutAt with
          | none => exact absurd hend (by cases h.timeoutAt <;> simp [earlier])
          | some ending =>
              have hle := le_of_earlier hend (Or.inl rfl)
              have hlt := hquiet (min (min ongoing.1 w.nextPulse) ending) (by rw [hend]; rfl)
              refine ⟨hheld, hstate, deadline, hdeadline, ?_, fun hnone => ?_⟩
              · omega
              · exact nomatch hongoing.symm.trans hnone
  | _ => exact trivial

/-- What is known of a worker at whose sink there is a batch. -/
theorem Sound.at_sink {w : Worker} {node : String} {j : Journal} {now bound : Nat}
    (hsound : w.Sound node j now bound) {h : Handover} (hsink : w.atSink? = some h) :
    h.Held w.retained w.link.snapshot node w.name j ∧ w.link.snapshot.state = .running ∧
    ∃ deadline, w.link.snapshot.leaseDeadline = some deadline ∧
      (now ≤ deadline ∨
        ∃ due started wall, w.wait = .renewing due started wall h ∧ started ≤ deadline ∧
          now ≤ due) ∧
      now ≤ deadline + bound := by
  have hwaits := hsound.waits
  unfold Waits at hwaits
  unfold atSink? at hsink
  cases hwait : w.wait with
  | applying h' =>
      rw [hwait] at hwaits hsink
      rcases hwaits with ⟨hheld, hstate, deadline, hdeadline, hle, _⟩
      rw [← Option.some.inj (Option.ite_none_right_eq_some.mp hsink).2]
      exact ⟨hheld, hstate, deadline, hdeadline, Or.inl hle, Nat.le_add_right_of_le hle⟩
  | renewing due started wall h' =>
      rw [hwait] at hwaits hsink
      rcases hwaits with ⟨hheld, hstate, deadline, hdeadline, hstarted, hnow, hdue⟩
      rw [← Option.some.inj (Option.ite_none_right_eq_some.mp hsink).2]
      -- The renewal began under the lease and is answered within the bound.
      refine ⟨hheld, hstate, deadline, hdeadline, Or.inr ⟨due, started, wall, ?_⟩, ?_⟩
      · exact ⟨rfl, hstarted, hnow⟩
      · omega
  | _ =>
      rw [hwait] at hsink
      exact nomatch hsink

end Worker

namespace Body

variable {b : Body} {i : Nat} {w w' : Worker}

/-- Only one worker is another one. -/
theorem mem_setWorker (h : w' ∈ (b.setWorker i w).workers) : w' = w ∨ w' ∈ b.workers := by
  cases b with
  | single _ signal => exact Or.inl (List.mem_singleton.mp h)
  | strategy s separate =>
      unfold setWorker at h
      dsimp only at h
      cases hrunning : s.running with
      | none =>
          rw [hrunning] at h
          exact Or.inr h
      | some r =>
          rw [hrunning] at h
          have hmem : w' ∈ r.scheduler.workers.set i w := h
          rcases List.mem_or_eq_of_mem_set hmem with hbefore | heq
          · refine Or.inr ?_
            rw [workers, Strategy.workers, hrunning]
            exact hbefore
          · exact Or.inl heq

end Body

namespace Strategy

variable {ω : Type} {s : Strategy ω}

theorem spawnAll_workers {scheduler scheduler' : Scheduler ω} {ws : List ω}
    (h : spawnAll scheduler ws = .ok scheduler') :
    scheduler'.workers = scheduler.workers ++ ws := by
  induction ws generalizing scheduler with
  | nil =>
      rw [← Except.ok.inj h, List.append_nil]
  | cons w ws ih =>
      rcases bind_eq_ok_iff.mp h with ⟨spawned, hspawn, hrest⟩
      have hworkers : spawned.workers = scheduler.workers ++ [w] := by
        unfold Scheduler.spawn at hspawn
        by_cases hfull : scheduler.capacity ≤ scheduler.workers.length
        · rw [if_pos hfull] at hspawn
          exact nomatch hspawn
        · rw [if_neg hfull] at hspawn
          rw [← Except.ok.inj hspawn]
      rw [ih hrest, hworkers, List.append_assoc]
      rfl

/-- A start leaves the node alone, or makes its workers, one per agent. -/
theorem start_cases (s : Strategy ω) (make : Validated → Option Assignment → ω) :
    (s.start make).strategy = s ∨
    s.running.isSome = false ∧ ∃ v, s.settings.validate = .ok v ∧
      (s.start make).strategy.workers = v.assignments.map (make v) := by
  unfold start
  by_cases hdisabled : (! s.settings.processors.enabled) = true
  · rw [if_pos hdisabled]
    exact Or.inl rfl
  rw [if_neg hdisabled]
  by_cases hrunning : s.running.isSome = true
  · rw [if_pos hrunning]
    exact Or.inl rfl
  rw [if_neg hrunning]
  cases hvalid : s.settings.validate with
  | error e => exact Or.inl rfl
  | ok v =>
      dsimp only
      cases hspawn : spawnAll { capacity := (v.assignments.map (make v)).length }
          (v.assignments.map (make v)) with
      | error e => exact Or.inl rfl
      | ok scheduler =>
          refine Or.inr ⟨Bool.eq_false_iff.mpr hrunning, v, rfl, ?_⟩
          show scheduler.workers = _
          rw [spawnAll_workers hspawn, List.nil_append]

/-- A worker after a start was there before, or is made. -/
theorem mem_start {make : Validated → Option Assignment → ω} {w : ω}
    (h : w ∈ (s.start make).strategy.workers) : w ∈ s.workers ∨ ∃ v a, w = make v a := by
  rcases s.start_cases make with heq | ⟨_, v, _, hworkers⟩
  · rw [heq] at h
    exact Or.inl h
  · rw [hworkers] at h
    rcases List.mem_map.mp h with ⟨a, _, rfl⟩
    exact Or.inr ⟨v, a, rfl⟩

end Strategy

/-- What is known of the workers of a node. -/
def Node.Sound (n : Node) (j : Journal) (now bound : Nat) : Prop :=
  ∀ w ∈ n.body.workers, w.Sound n.host.name j now bound

namespace Cluster

variable {bound : Nat} {c : Cluster} {name : String}

/-- No session takes longer than this to open. -/
def OpensWithin (bound : Nat) (c : Cluster) : Prop :=
  ∀ node ∈ c.nodes, node.host.access.faults.delay .begin ≤ bound

/-- Every state of a run has this property, the first and the last one included. -/
def Always (P : Cluster → Prop) (c : Cluster) : List Event → Prop
  | [] => P c
  | e :: events => P c ∧ Always P (c.perform e).2 events

theorem Always.imp {P Q : Cluster → Prop} (hPQ : ∀ c, P c → Q c) {events : List Event}
    (h : Always P c events) : Always Q c events := by
  induction events generalizing c with
  | nil => exact hPQ c h
  | cons e events ih => exact ⟨hPQ c h.1, ih h.2⟩

theorem run_append (c : Cluster) (before events : List Event) :
    c.run (before ++ events) = (c.run before).run events :=
  List.foldl_append

/-- A run in two parts. -/
theorem Always.append {P : Cluster → Prop} {before events : List Event}
    (h : Always P c (before ++ events)) : Always P c before ∧ Always P (c.run before) events := by
  induction before generalizing c with
  | nil =>
      refine ⟨?_, h⟩
      cases events with
      | nil => exact h
      | cons e events => exact h.1
  | cons e before ih => exact ⟨⟨h.1, (ih h.2).1⟩, (ih h.2).2⟩

/-- When time can pass, no worker goes on now. -/
theorem lt_of_isQuiet (hquiet : c.isQuiet = true) {node : Node} (hnode : node ∈ c.nodes)
    {w : Worker} (hw : w ∈ node.body.workers) {due : Nat}
    (hdue : w.dueAt node.body.signal = some due) : c.now < due := by
  rcases List.mem_iff_getElem?.mp hnode with ⟨n, hn⟩
  rcases List.mem_iff_getElem?.mp hw with ⟨i, hi⟩
  -- The turn is one of those that `isQuiet` has looked at.
  have hturn : ({ node := n, worker := i, due := max c.now due } : Turn) ∈ c.turns := by
    refine List.mem_flatMap.mpr ⟨(node, n), List.mem_zipIdx_iff_getElem?.mpr hn, ?_⟩
    refine List.mem_filterMap.mpr ⟨(w, i), List.mem_zipIdx_iff_getElem?.mpr hi, ?_⟩
    exact congrArg (Option.map _) hdue
  have hlt : c.now < max c.now due := of_decide_eq_true (List.all_eq_true.mp hquiet _ hturn)
  omega

/-- What is known of all workers, and of what they have done. -/
structure Custody (bound : Nat) (c : Cluster) : Prop where
  lawful : c.journal.Lawful
  sound : ∀ node ∈ c.nodes, node.Sound c.journal c.now bound

namespace Custody

/-- The workers of the node that is found by a name. -/
theorem of_find? (h : c.Custody bound) {node : Node} (hfind : c.find? name = some node) :
    ∀ w ∈ node.body.workers, w.Sound name c.journal c.now bound := by
  intro w hw
  have hname : node.host.name = name := by
    have := List.find?_some hfind
    exact beq_iff_eq.mp this
  rw [← hname]
  exact h.sound node (List.mem_of_find?_eq_some hfind) w hw

theorem report (h : c.Custody bound) (ns : List Notice) : (c.report ns).Custody bound :=
  ⟨Journal.lawful_addNotices h.lawful ns,
    fun node hnode w hw => (h.sound node hnode w hw).mono (List.suffix_append _ _)⟩

/-- Only nodes of this name are other ones. -/
theorem modifyNode (h : c.Custody bound) {change : Node → Node}
    (hchange : ∀ n ∈ c.nodes, n.host.name = name → (change n).Sound c.journal c.now bound) :
    (c.modifyNode name change).Custody bound := by
  refine ⟨h.lawful, fun node hnode => ?_⟩
  rcases List.mem_map.mp hnode with ⟨n, hn, rfl⟩
  by_cases hname : n.host.name = name
  · rw [if_pos hname]
    exact hchange n hn hname
  · rw [if_neg hname]
    exact h.sound n hn

theorem addNode (h : c.Custody bound) {node : Node} (hnode : node.Sound c.journal c.now bound) :
    (c.addNode node).Custody bound := by
  refine ⟨h.lawful, fun n hn => ?_⟩
  rcases List.mem_append.mp hn with hbefore | hnew
  · exact h.sound n (List.mem_filter.mp hbefore).1
  · rw [List.mem_singleton.mp hnew]
    exact hnode

/-- The single worker of a node becomes one of which the same is known. -/
theorem modifySingle (h : c.Custody bound) {change : Worker → Signal → Worker × Signal}
    (hchange : ∀ w signal node, w.Sound node c.journal c.now bound →
      (change w signal).1.Sound node c.journal c.now bound) :
    (c.modifySingle name change).Custody bound := by
  refine h.modifyNode (fun n hn _ => ?_)
  have hsound := h.sound n hn
  unfold Node.Sound at hsound ⊢
  cases hbody : n.body with
  | strategy s separate => exact hsound
  | single w signal =>
      rw [hbody] at hsound
      intro w' hw'
      rw [List.mem_singleton.mp hw']
      exact hchange w signal _ (hsound w (List.mem_singleton_self w))

theorem addSingle (h : c.Custody bound) {host : Host} {settings : Settings} {agent : String}
    {configured : Option Assignment} {c' : Cluster}
    (hadd : c.addSingle host settings agent configured = .ok c') : c'.Custody bound := by
  unfold Cluster.addSingle at hadd
  cases hvalid : settings.validate with
  | error e =>
      rw [hvalid] at hadd
      exact nomatch hadd
  | ok v =>
      rw [hvalid] at hadd
      rw [← Except.ok.inj hadd]
      refine h.addNode (fun w hw => ?_)
      rw [List.mem_singleton.mp hw]
      exact Worker.Sound.fresh rfl (Or.inl rfl)

theorem start (h : c.Custody bound) (name : String) : (c.start name).2.Custody bound := by
  unfold Cluster.start
  cases hfind : c.find? name with
  | none => exact h
  | some node =>
      have hworkers := h.of_find? hfind
      dsimp only
      cases hbody : node.body with
      | strategy s separate =>
          rw [hbody] at hworkers
          refine report (h.modifyNode (fun n _ hname w hw => ?_)) _
          rcases Strategy.mem_start hw with hbefore | ⟨v, a, rfl⟩
          · rw [show ({ n with body := _ } : Node).host.name = name from hname]
            exact hworkers w hbefore
          · exact Worker.Sound.fresh rfl (Or.inr rfl)
      | single w signal =>
          rw [hbody] at hworkers
          refine h.modifyNode (fun n _ hname w' hw' => ?_)
          have hsound := hworkers w (List.mem_singleton_self w)
          rw [List.mem_singleton.mp hw']
          -- Being started takes nothing from what is known of the batch that it keeps.
          by_cases hheld : w.wait = .held
          · rw [if_pos hheld]
            rw [show ({ n with body := _ } : Node).host.name = name from hname]
            exact ⟨hsound.kept, trivial⟩
          · rw [if_neg hheld]
            rw [show ({ n with body := _ } : Node).host.name = name from hname]
            exact hsound

theorem drain (h : c.Custody bound) (name : String) : (c.drain name).Custody bound := by
  unfold Cluster.drain
  cases hfind : c.find? name with
  | none => exact h
  | some node =>
      have hworkers := h.of_find? hfind
      rcases node with ⟨host, body, totalCount⟩
      cases body with
      | single w signal => exact h
      | strategy s separate =>
          refine report (h.modifyNode (fun n _ hname w hw => ?_)) _
          rw [show ({ n with body := _ } : Node).host.name = name from hname]
          refine hworkers w ?_
          have hmem : w ∈ s.drain.1.workers := hw
          unfold Strategy.drain at hmem
          cases hrunning : s.running with
          | none =>
              rw [hrunning] at hmem
              exact hmem
          | some r =>
              rw [hrunning] at hmem
              show w ∈ s.workers
              rw [Strategy.workers, hrunning]
              exact hmem

theorem stop (h : c.Custody bound) (name : String) : (c.stop name).2.Custody bound := by
  unfold Cluster.stop
  cases hfind : c.find? name with
  | none => exact h
  | some node =>
      rcases node with ⟨host, body, totalCount⟩
      cases body with
      | single w signal => exact h
      | strategy s separate =>
          exact report (h.modifyNode (fun _ _ _ w hw => absurd hw List.not_mem_nil)) _

/-- The turn of one worker. The others are as they were, and the journal has only
    grown. -/
theorem turn (h : c.Custody bound) (hopens : c.OpensWithin bound) (n i skip : Nat) :
    (c.resumeWorker n i skip).Custody bound := by
  unfold Cluster.resumeWorker
  cases hnode : c.nodes[n]? with
  | none => exact h
  | some node =>
      dsimp only
      cases hworker : node.body.workers[i]? with
      | none => exact h
      | some worker =>
          have hmem := List.mem_of_getElem? hnode
          have hsettles := Scene.resume_settles (s := c.scene node worker skip)
            h.lawful (h.sound node hmem worker (List.mem_of_getElem? hworker)) (hopens node hmem)
          dsimp only
          generalize (c.scene node worker skip).resume = s at hsettles ⊢
          rcases hsettles with ⟨⟨hnow, hname, _, hsuffix, hlawful, hpolled⟩, hwaits⟩
          refine ⟨hlawful, fun n' hn' w hw => ?_⟩
          rcases List.mem_or_eq_of_mem_set hn' with hbefore | rfl
          · exact (h.sound n' hbefore w hw).mono hsuffix
          · -- In the node of the turn one worker is new, and the others share its name only.
            rcases Body.mem_setWorker hw with rfl | hother
            · rw [hnow] at hwaits
              exact ⟨hpolled, hwaits⟩
            · show w.Sound s.host.name s.journal c.now bound
              rw [hname]
              exact (h.sound node hmem w hother).mono hsuffix

/-- Time passes only if every worker can wait for another millisecond. -/
theorem tick (h : c.Custody bound) (hquiet : c.isQuiet = true) :
    ({ c with now := c.now + 1 } : Cluster).Custody bound := by
  refine ⟨h.lawful, fun node hnode w hw => ?_⟩
  refine (h.sound node hnode w hw).tick node.body.signal (fun due hdue => ?_)
  exact lt_of_isQuiet hquiet hnode hw hdue

end Custody

theorem custody_init (bound : Nat) (epoch : Int) (agents : AgentTable) (outbox : Outbox) :
    ({ epoch, agents, outbox } : Cluster).Custody bound :=
  ⟨trivial, fun _ h => absurd h List.not_mem_nil⟩

/-- Every event keeps the invariant. -/
theorem custody_step (h : c.Custody bound) (hopens : c.OpensWithin bound) (e : Event) :
    (c.perform e).2.Custody bound := by
  cases e with
  | addStrategy host settings separate =>
      exact h.addNode (fun _ hw => absurd hw List.not_mem_nil)
  | addSingle host settings agent configured =>
      dsimp only [perform]
      cases hadd : c.addSingle host settings agent configured with
      | error e => exact h
      | ok c' => exact h.addSingle hadd
  | start node => exact h.start node
  | drain node => exact h.drain node
  | stop node => exact h.stop node
  | send node raised =>
      dsimp only [perform, send]
      exact h.modifySingle (fun _ _ _ hw => hw)
  | dropSignal node =>
      dsimp only [perform, dropSignal]
      exact h.modifySingle (fun _ _ _ hw => hw)
  | abort node =>
      dsimp only [perform, abort]
      exact h.modifySingle (fun _ _ _ hw => hw.abort)
  | discard node =>
      dsimp only [perform, discard]
      exact h.modifySingle (fun _ _ _ hw => hw.discard)
  | moveWall node ms => exact h.modifyNode (fun n hn _ => h.sound n hn)
  | arm node point times error => exact h.modifyNode (fun n hn _ => h.sound n hn)
  | slow node point ms => exact h.modifyNode (fun n hn _ => h.sound n hn)
  | turn n i skip =>
      dsimp only [perform]
      by_cases hdue : c.isDue n i = true
      · rw [if_pos hdue]
        exact h.turn hopens n i skip
      · rw [if_neg hdue]
        exact h
  | tick =>
      dsimp only [perform]
      by_cases hquiet : c.isQuiet = true
      · rw [if_pos hquiet]
        exact h.tick hquiet
      · rw [if_neg hquiet]
        exact h
  -- The tables are nothing that the invariant speaks of.
  | enqueue keys => exact ⟨h.lawful, h.sound⟩
  | deleteEvents ids => exact ⟨h.lawful, h.sound⟩
  | putAgent row => exact ⟨h.lawful, h.sound⟩
  | deleteAgents ids => exact ⟨h.lawful, h.sound⟩

theorem custody_run {events : List Event} (h : c.Custody bound)
    (hopens : Always (OpensWithin bound) c events) : (c.run events).Custody bound := by
  induction events generalizing c with
  | nil => exact h
  | cons e events ih => exact ih (custody_step h hopens.1 e) hopens.2

/-- There are only so many nodes. -/
theorem exists_opensWithin (c : Cluster) : ∃ bound, c.OpensWithin bound := by
  unfold OpensWithin
  induction c.nodes with
  | nil => exact ⟨0, fun _ h => absurd h List.not_mem_nil⟩
  | cons node nodes ih =>
      rcases ih with ⟨bound, hbound⟩
      refine ⟨node.host.access.faults.delay .begin + bound, fun n hn => ?_⟩
      rcases List.mem_cons.mp hn with rfl | hn
      · exact Nat.le_add_right _ _
      · exact Nat.le_trans (hbound n hn) (Nat.le_add_left _ _)

/-- A run has an end, so there is a time within which all its sessions open. -/
theorem exists_always_opensWithin (c : Cluster) (events : List Event) :
    ∃ bound, Always (OpensWithin bound) c events := by
  induction events generalizing c with
  | nil => exact exists_opensWithin c
  | cons e events ih =>
      rcases exists_opensWithin c with ⟨first, hfirst⟩
      rcases ih (c.perform e).2 with ⟨later, hlater⟩
      refine ⟨first + later, fun node hnode => ?_, hlater.imp (fun _ h node hnode => ?_)⟩
      · exact Nat.le_trans (hfirst node hnode) (Nat.le_add_right _ _)
      · exact Nat.le_trans (h node hnode) (Nat.le_add_left _ _)

/-- Sinks are given batches and events are deleted only under current ownership, and
    who has a batch at a sink runs with the agent and the shard for which the batch
    was found. The lease is not over, unless the worker waits for the session of a
    renewal that began before the end; then it is over by no more than a session
    takes to open. -/
theorem sinks_under_ownership (epoch : Int) (agents : AgentTable) (outbox : Outbox)
    (events : List Event) :
    (({ epoch, agents, outbox } : Cluster).run events).journal.Lawful ∧
    ∀ node ∈ (({ epoch, agents, outbox } : Cluster).run events).nodes,
      ∀ w ∈ node.body.workers, ∀ h, w.atSink? = some h →
        w.link.snapshot.state = .running ∧ w.link.snapshot.Bears h.batch ∧
        h.batch.Polled (({ epoch, agents, outbox } : Cluster).run events).journal
          node.host.name w.name ∧
        ∃ deadline, w.link.snapshot.leaseDeadline = some deadline ∧
          ((({ epoch, agents, outbox } : Cluster).run events).now ≤ deadline ∨
            ∃ due started wall, w.wait = .renewing due started wall h ∧ started ≤ deadline ∧
              (({ epoch, agents, outbox } : Cluster).run events).now ≤ due) ∧
          ∀ bound, Always (OpensWithin bound) { epoch, agents, outbox } events →
            (({ epoch, agents, outbox } : Cluster).run events).now ≤ deadline + bound := by
  have hinit : ∀ bound, ({ epoch, agents, outbox } : Cluster).Custody bound :=
    fun _ => ⟨trivial, fun _ h => absurd h List.not_mem_nil⟩
  have hcustody : ∀ bound, Always (OpensWithin bound) { epoch, agents, outbox } events →
      (({ epoch, agents, outbox } : Cluster).run events).Custody bound :=
    fun bound hopens => custody_run (hinit bound) hopens
  -- All but the last part asks for some bound and not for which.
  rcases exists_always_opensWithin { epoch, agents, outbox } events with ⟨bound, hopens⟩
  refine ⟨(hcustody bound hopens).lawful, fun node hnode w hw h hsink => ?_⟩
  rcases ((hcustody bound hopens).sound node hnode w hw).at_sink hsink
    with ⟨hheld, hstate, deadline, hdeadline, hlease, _⟩
  refine ⟨hstate, hheld.bears, hheld.polled, deadline, hdeadline, hlease,
    fun bound' hopens' => ?_⟩
  rcases ((hcustody bound' hopens').sound node hnode w hw).at_sink hsink
    with ⟨_, _, deadline', hdeadline', _, hle⟩
  rw [Option.some.inj (hdeadline.symm.trans hdeadline')]
  exact hle

/-- A renewal begins while the sink has a batch, and its session takes ten
    milliseconds to open. -/
def slowRenewal : List Event :=
  [.addSingle { name := "n", sink := .scripted [] { delay := 100 } }
      { processors := { pollingInterval := 1, pulseInterval := 1, pulseExpiration := 3 } } "w" none,
    .enqueue ["k"], .start "n", .turn 0 0, .turn 0 0, .tick, .turn 0 0, .turn 0 0, .turn 0 0,
    .turn 0 0, .slow "n" .begin 10, .tick, .turn 0 0, .tick, .tick, .tick]

/-- The lease ends meanwhile, and the sink still has the batch. -/
theorem slowRenewal_outlasts_lease :
    (({ epoch := 0 } : Cluster).run slowRenewal).now = 5 ∧
    (({ epoch := 0 } : Cluster).run slowRenewal).nodes.map (fun node =>
      node.body.workers.map fun w => (w.atSink?.isSome, w.link.snapshot.leaseDeadline)) =
    [[(true, some 4)]] := by
  decide +kernel

end Cluster

end OutboxCluster
