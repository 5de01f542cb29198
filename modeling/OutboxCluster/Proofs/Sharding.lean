import OutboxCluster.Proofs.Conduct
import OutboxCluster.Proofs.Drain
import OutboxCluster.Proofs.Recorded

/-!
# No Dynamic Agent Takes Every Event

A search without a shard finds every event. So a dynamic agent that ran without one would
hand on the events of all its peers. It never does: whoever runs has published a shard
(`Link.Sharded`), and a search is for the shard that was published when the worker came to
wait for it (`Conducts.polls`). The cycle remembers that shard, so it does not matter what
is published until the search is made.

The first half is a law of the table and of single links, and holds in rosters and in
clusters for the same reason, by the same three laws of attempts. Here it is repeated for
the workers of a cluster, and put together with the second half.

## Main definitions

* `Cluster.Event.AddsNoProcessor`: An event that adds no record of a worker.
* `Cluster.Dynamic`: The workers are dynamic, and their table is not too large.
* `Cluster.Recording`: The invariant.

## Theorems

* `Acts.recorded`: A turn keeps records and link in agreement.
* `recording_step`: Every event keeps the invariant.
* `decided_and_sharded`: Records agree with their views, and nobody searches without a shard.
-/

namespace OutboxCluster

namespace Link.Acts

variable {l l' : Link} {access : Access} {t t' : AgentTable} {role : String}

/-- An attempt leaves the role alone. -/
theorem role_eq (h : l.Acts access t l' t') : l'.role = l.role := by
  cases h with
  | nothing => rfl
  | pulse moment =>
      rcases l.pulse_cases moment access t with ⟨_, _, _, hlink, _⟩ | ⟨_, _, _, hlink, _⟩ |
        ⟨_, _, hlink, _⟩
      · rw [hlink]
        rfl
      · rw [hlink]
        rfl
      · rw [hlink]
  | renew moment =>
      rcases (l.renew_cases moment access t).2 with ⟨_, _, hlink⟩ | ⟨_, _, hlink⟩ |
        ⟨_, _, hlink | hlink⟩
      · rw [hlink]
      · rw [hlink]
      · rw [hlink]
      · rw [hlink]
        rfl
  | leave =>
      rcases (l.leave_cases access t).2 with ⟨_, _, hlink⟩ | ⟨_, _, _, hlink⟩
      · rw [hlink]
      · rw [hlink]

/-- Whatever attempt is made, records and link go on to agree. -/
theorem recorded (h : l.Acts access t l' t') (hrecorded : l.Recorded role t)
    (hlen : t'.rows.length < 4294967296) : l'.Recorded role t' := by
  cases h with
  | nothing => exact hrecorded
  | pulse moment => exact pulse_recorded access moment hrecorded hlen
  | renew moment => exact renew_recorded access moment hrecorded
  | leave => exact leave_recorded access hrecorded

end Link.Acts

namespace Cluster

variable {bound : Nat} {c c' : Cluster} {node : Node} {worker : Worker} {skip : Nat}
  {others : List (String × Worker)} {e : Event} {events : List Event}

/-- An event that does not add a record of a worker. -/
def Event.AddsNoProcessor : Event → Prop
  | .putAgent row => row.role ≠ eventProcessorRole
  | _ => True

instance (e : Event) : Decidable e.AddsNoProcessor :=
  match e with
  | .putAgent row => inferInstanceAs (Decidable (row.role ≠ eventProcessorRole))
  | .addStrategy .. | .addSingle .. | .start _ | .drain _ | .stop _ | .send .. | .dropSignal _
  | .abort _ | .discard _ | .enqueue _ | .deleteEvents _ | .deleteAgents _ | .moveWall ..
  | .arm .. | .slow .. | .turn .. | .tick => instDecidableTrue

/-- The workers are dynamic, and the number of records can be told by a word. -/
structure Dynamic (c : Cluster) : Prop where
  links : ∀ p ∈ c.crew, p.2.link.configured = none
  small : c.agents.rows.length < 4294967296

instance (c : Cluster) : Decidable c.Dynamic :=
  decidable_of_iff
    ((∀ p ∈ c.crew, p.2.link.configured = none) ∧ c.agents.rows.length < 4294967296)
    ⟨fun h => ⟨h.1, h.2⟩, fun h => ⟨h.links, h.small⟩⟩

/-- The records of workers were decided on their views, every worker that has published an id
    or runs has published a shard, and all searches are within a shard. -/
structure Recording (c : Cluster) : Prop where
  ordered : c.agents.Ordered
  decided : c.agents.Decided eventProcessorRole
  role : ∀ p ∈ c.crew, p.2.link.role = eventProcessorRole
  sharded : ∀ p ∈ c.crew, p.2.link.Sharded
  polls : ∀ p ∈ c.crew, ∀ due cycle, p.2.wait = .polling due cycle →
    cycle.assignment.isSome = true
  searched : ∀ who snapshot assignment found, .searched who snapshot assignment found ∈ c.journal →
    assignment.isSome = true

theorem recording_init (epoch : Int) : ({ epoch } : Cluster).Recording where
  ordered := Table.ordered_empty
  decided := AgentTable.decided_empty _
  role := fun _ hp => absurd hp List.not_mem_nil
  sharded := fun _ hp => absurd hp List.not_mem_nil
  polls := fun _ hp => absurd hp List.not_mem_nil
  searched := fun _ _ _ _ h => absurd h List.not_mem_nil

/-- What is no turn brings no record of a worker. -/
theorem Event.AddsNoProcessor.rows (h : e.AddsNoProcessor) {t : AgentTable} (hord : t.Ordered) :
    (e.agents t).Ordered ∧
      ∀ p ∈ (e.agents t).rows, p.2.role = eventProcessorRole → p ∈ t.rows := by
  cases e with
  | putAgent row =>
      refine ⟨hord.insert row, fun p hp hrole => ?_⟩
      rcases Table.mem_insert.mp hp with hbefore | rfl
      · exact hbefore
      · exact absurd hrole h
  | deleteAgents ids => exact ⟨hord.delete ids, fun _ hp _ => (Table.mem_delete.mp hp).1⟩
  | _ => exact ⟨hord, fun _ hp _ => hp⟩

theorem Recording.outside (h : c.Recording) (hadds : e.AddsNoProcessor) (hdynamic' : c'.Dynamic)
    (hout : Outside e c c') : c'.Recording := by
  have hrows := hadds.rows h.ordered
  rw [← hout.agents_eq] at hrows
  refine ⟨hrows.1, h.decided.of_subset hrows.2, fun p hp => ?_, fun p hp => ?_,
    fun p hp due cycle hwait => ?_, fun who snapshot assignment found hmem => ?_⟩
  · rcases hout.crew.mem_cases hp with ⟨q, hq, hshifted⟩ | hbrings
    · rw [hshifted.link_eq]
      exact h.role q hq
    · rcases hbrings.fresh.2 with ⟨_, _, _, _, _, heq⟩
      rw [heq]
      rfl
  · rcases hout.crew.mem_cases hp with ⟨q, hq, hshifted⟩ | hbrings
    · rw [hshifted.link_eq]
      exact h.sharded q hq
    · have hconf := hdynamic'.links p hp
      rcases hbrings.fresh.2 with ⟨_, _, _, _, _, heq⟩
      rw [heq] at hconf ⊢
      exact Link.Sharded.of_unpublished hconf rfl AgentState.noConfusion
  · rcases hout.crew.mem_cases hp with ⟨q, hq, hshifted⟩ | hbrings
    · cases hshifted with
      | same => exact h.polls _ hq due cycle hwait
      | started _ => cases hwait
      | ended _ => cases hwait
    · rcases hbrings.fresh.1 with hheld | hlaunched
      · cases hheld.symm.trans hwait
      · cases hlaunched.symm.trans hwait
  -- Notices are no searches.
  · rcases hout.journal with ⟨ns, heq⟩
    rw [heq, Journal.addNotices] at hmem
    rcases List.mem_append.mp hmem with hnotice | hbefore
    · rcases List.mem_map.mp (List.mem_reverse.mp hnotice) with ⟨_, _, hne⟩
      cases hne
    · exact h.searched who snapshot assignment found hbefore

theorem Recording.turned (h : c.Recording) (hcustody : c.Custody bound) (hdynamic' : c'.Dynamic)
    (hturned : Turned bound c c' node worker skip others) : c'.Recording := by
  have hmem := mem_crew_of_mem hturned.node_mem hturned.worker_mem
  have hconducts := hturned.conducts hcustody
  have hacts := hconducts.acts
  rw [← hturned.agents_eq] at hacts
  have hrecorded := hacts.recorded ⟨h.ordered, h.decided, fun _ => h.sharded _ hmem⟩ hdynamic'.small
  have hrole := hacts.role_eq.trans (h.role _ hmem)
  have hcrew : ∀ p ∈ others, p ∈ c.crew := fun p hp =>
    hturned.crew_before.mem_iff.mpr (List.mem_cons_of_mem _ hp)
  have hsharded := hrecorded.sharded hrole
  refine ⟨hrecorded.ordered, hrecorded.decided, fun p hp => ?_, fun p hp => ?_,
    fun p hp due cycle hwait => ?_, fun who snapshot assignment found hmem' => ?_⟩
  · rcases List.mem_cons.mp (hturned.crew_after.mem_iff.mp hp) with rfl | hother
    · exact hrole
    · exact h.role p (hcrew p hother)
  · rcases List.mem_cons.mp (hturned.crew_after.mem_iff.mp hp) with rfl | hother
    · exact hsharded
    · exact h.sharded p (hcrew p hother)
  · rcases List.mem_cons.mp (hturned.crew_after.mem_iff.mp hp) with rfl | hother
    · -- Whoever comes to wait for a search runs.
      rcases hconducts.polls due cycle hwait with ⟨hrun, hshard⟩
      rw [hshard]
      exact hsharded.running hrun
    · exact h.polls p (hcrew p hother) due cycle hwait
  · rcases hconducts.grows with ⟨es, heq, hes⟩
    rw [hturned.journal_eq, heq] at hmem'
    rcases List.mem_append.mp hmem' with hnew | hbefore
    · rcases hes _ hnew with ⟨due, cycle, hwait, rfl⟩
      exact h.polls _ hmem due cycle hwait
    · exact h.searched who snapshot assignment found hbefore

/-- Every event keeps the invariant, if no record of a worker is added and the table does not
    grow too large. -/
theorem recording_step (h : c.Recording) (hdistinct : c.Distinct) (hcustody : c.Custody bound)
    (hopens : c.OpensWithin bound) (hadds : e.AddsNoProcessor)
    (hdynamic' : (c.perform e).2.Dynamic) : (c.perform e).2.Recording := by
  rcases step_cases hdistinct hcustody hopens e with hout | ⟨node, worker, skip, others, hturned⟩
  · exact h.outside hadds hdynamic' hout
  · exact h.turned hcustody hdynamic' hturned

theorem recording_run (h : c.Recording) (hdistinct : c.Distinct) (hcustody : c.Custody bound)
    (hopens : Always (OpensWithin bound) c events) (hadds : ∀ e ∈ events, e.AddsNoProcessor)
    (hdynamic : Always Dynamic c events) : (c.run events).Recording := by
  induction events generalizing c with
  | nil => exact h
  | cons e events ih =>
      have hnext := recording_step h hdistinct hcustody hopens.1 (hadds e List.mem_cons_self)
        hdynamic.2.head
      exact ih hnext (distinct_step hdistinct hcustody hopens.1 e)
        (custody_step hcustody hopens.1 e) hopens.2
        (fun e he => hadds e (List.mem_cons_of_mem _ he)) hdynamic.2

end Cluster

/-- Dynamic links of a role do what they like over a table that was empty, sessions fail and
    clocks move, and so do the workers of a cluster. Every record says on which view it was
    decided, and has the shard of its agent by this view. Whoever has published an id, as every
    pulse does that comes through, or runs, has published a shard, and no worker ever searches
    without one. -/
theorem decided_and_sharded (role : String) (wall : WallClock) (acts : List Roster.Event)
    (hrule : Roster.Along (fun m e => e.KeepsDynamic role ∧
      (m.step e).1.agents.rows.length < 4294967296) { wall } acts)
    (epoch : Int) (events : List Cluster.Event) (hadds : ∀ e ∈ events, e.AddsNoProcessor)
    (hdynamic : Cluster.Always Cluster.Dynamic { epoch } events) :
    Roster.Recording role (({ wall } : Roster).run acts) ∧
    (∀ name waited member, (({ wall } : Roster).run acts).find? name = some member →
      member.link.role = role →
      Roster.Unfailing (({ wall } : Roster).run acts) (.pulse name waited) →
      ((({ wall } : Roster).run acts).step (.pulse name waited)).1.agents.rows.length <
        4294967296 →
      ∃ member', ((({ wall } : Roster).run acts).step (.pulse name waited)).1.find? name =
          some member' ∧
        member'.link.snapshot.agentId.isSome = true ∧
        member'.link.snapshot.assignment.isSome = true) ∧
    (({ epoch } : Cluster).run events).Recording := by
  have hrecording := hrule.invariant (Roster.recording_init role wall)
    fun _ _ hm he => Roster.recording_step hm he.1 he.2
  rcases Cluster.exists_always_opensWithin { epoch } events with ⟨bound, hopens⟩
  have hdistinct := Cluster.distinct_init epoch {} {}
  have hcustody := Cluster.custody_init bound epoch {} {}
  exact ⟨hrecording, fun _ _ _ hfind hrole hthrough hlen =>
      hrecording.publishes hfind hrole hthrough hlen,
    Cluster.recording_run (Cluster.recording_init epoch) hdistinct hcustody hopens hadds hdynamic⟩

/-- A session fails after its record was inserted, and the clock goes back and on. -/
def straying : List Roster.Event :=
  [.join "a" "r" none 1000, .arm "a" .commit 1 .database, .pulse "a", .join "b" "r" none 1000,
    .pulse "b", .pulse "a", .setClock (-5), .pulse "b", .advance 2000 2000, .join "c" "r" none 1000,
    .pulse "c", .pulse "a"]

/-- Two agents share the events out, and the session of a pulse fails. -/
def faltering : List Cluster.Event :=
  [.addSingle { name := "a", sink := .reporting } (Cluster.brisk 0) "a" none,
    .addSingle { name := "b", sink := .reporting } (Cluster.brisk 0) "b" none,
    .start "a", .start "b"] ++ Cluster.milliseconds 2 ++ [.arm "b" .commit 1 .database] ++
    Cluster.milliseconds 1 ++ [.enqueue ["a", "k"]] ++ Cluster.milliseconds 2

/-- The events are found by the agents that share them out. -/
theorem decided_and_sharded_straying :
    Roster.Along (fun m e => e.KeepsDynamic "r" ∧
      (m.step e).1.agents.rows.length < 4294967296) { wall := ⟨0⟩ } straying ∧
    (∀ e ∈ faltering, e.AddsNoProcessor) ∧
    Cluster.Always Cluster.Dynamic { epoch := 0 } faltering ∧
    (({ wall := ⟨0⟩ } : Roster).run straying).agents.rows.map (fun p => (p.1, p.2.total)) =
      [(2, some 1), (3, some 2)] ∧
    ((({ epoch := 0 } : Cluster).run faltering).journal.filterMap fun
      | .searched _ _ assignment (some (_ :: _)) => assignment.map fun s => s.total
      | _ => none) = [2, 2] ∧
    Roster.Recording "r" (({ wall := ⟨0⟩ } : Roster).run straying) ∧
    (({ epoch := 0 } : Cluster).run faltering).Recording := by
  have hrule : Roster.Along (fun m e => e.KeepsDynamic "r" ∧
      (m.step e).1.agents.rows.length < 4294967296) { wall := ⟨0⟩ } straying := by decide +kernel
  have hadds : ∀ e ∈ faltering, e.AddsNoProcessor := by decide +kernel
  have hdynamic : Cluster.Always Cluster.Dynamic { epoch := 0 } faltering := by decide +kernel
  have hboth := decided_and_sharded "r" ⟨0⟩ straying hrule 0 faltering hadds hdynamic
  exact ⟨hrule, hadds, hdynamic, by decide +kernel, by decide +kernel, hboth.1, hboth.2.2⟩

end OutboxCluster
