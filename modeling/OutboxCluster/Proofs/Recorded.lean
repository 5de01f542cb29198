import OutboxCluster.Proofs.Exclusive
import OutboxCluster.Proofs.Shard
import OutboxCluster.Proofs.Steady
import OutboxCluster.Proofs.Unfailing

/-!
# Records and the Views They Were Decided On

A pulse stores two things side by side: the view of the members that the agent has seen,
and the shard that it has taken. Nothing ever checks the one against the other. They agree
because both come from one list of live records, which is the list of the table in which
the agent decides, with its own record among them (`Decides`). That list is in ascending
order, so the agent is found in it and has a shard.

A dynamic agent without a shard would take every event, so this is also why none ever
does: it publishes its id together with its shard, and it has one from the first pulse on.

It is an argument about the attempts of one link and does not ask who else uses the table,
nor whether sessions fail, nor what the clocks do. So it is said of a link and a table
first, and the law of a roster repeats it for every link.

## Main definitions

* `AgentRow.Follows`: A record holds a view and the shard that the view gives it.
* `AgentTable.Decided`: Every record of a role does.
* `Link.Sharded`: A dynamic link that has published an id has published a shard.
* `Link.Recorded`: A link and a table of which both are true.
* `Roster.Recording`: The invariant.

## Theorems

* `Writes.follows`: What a pulse of a dynamic agent writes.
* `Decided.write`, `Decided.renew`, `Decided.of_subset`: The records after an attempt.
* `pulse_recorded`, `renew_recorded`, `leave_recorded`: The attempts of a link.
* `recording_step`: Every event keeps the invariant.
* `Recording.publishes`: A pulse that comes through publishes a shard.
-/

namespace OutboxCluster

/-- The record with this id holds a view of ascending ids with its own among them, and the
    numbers of the shard that it has by this view. -/
structure AgentRow.Follows (row : AgentRow) (id : Int) (view : ClusterView) (s : Assignment) :
    Prop where
  payload_eq : row.payload = some view.payload
  ascending : view.agentIds.Pairwise (· < ·)
  mem : id ∈ view.agentIds
  decided : dynamicAssignment view.agentIds id = some s
  total_eq : row.total = some (s.total.toNat : Int)
  index_eq : row.index = some (s.index.toNat : Int)
  index_lt : s.index.toNat < s.total.toNat
  length_eq : s.total.toNat = view.agentIds.length

namespace AgentTable

/-- Every record of the role was decided on the view that it holds. -/
def Decided (t : AgentTable) (role : String) : Prop :=
  ∀ p ∈ t.rows, p.2.role = role → ∃ view s, p.2.Follows p.1 view s

theorem decided_empty (role : String) : Decided {} role := fun _ hp => absurd hp List.not_mem_nil

section Decided

variable {t t' : AgentTable} {role : String} {l : Link} {now : Int} {me : Agent}

theorem Decided.of_subset (h : t.Decided role)
    (hsub : ∀ p ∈ t'.rows, p.2.role = role → p ∈ t.rows) : t'.Decided role :=
  fun p hp hrole => h p (hsub p hp hrole) hrole

/-- A renewal moves the end of a lease and touches neither view nor shard. -/
theorem Decided.renew (hord : t.Ordered) (h : t.Decided role) (hrenews : l.Renews now t t') :
    t'.Decided role := by
  rcases hrenews.mem_rows hord with ⟨me, _, hheld, hrows⟩
  intro p hp hrole
  rcases (hrows p).mp hp with rfl | ⟨hbefore, _⟩
  · rcases h (me.id, me.row) hheld hrole with ⟨view, s, hfollows⟩
    exact ⟨view, s, { hfollows with }⟩
  · exact h p hbefore hrole

end Decided

end AgentTable

namespace Link

section Writes

variable {l : Link} {now : Int} {t t' : AgentTable} {me : Agent}

/-- A dynamic agent writes its view and the shard that it has by it. -/
theorem Writes.follows (hord : t.Ordered) (h : l.Writes now t me t') (hconf : l.configured = none)
    (hlen : t'.rows.length < 4294967296) :
    ∃ view s, me.row.Follows me.id view s ∧ me.assignment = some s := by
  rcases h.decides hord with ⟨own, live, t₁, hdec, hme, hid, _, _, ht', _⟩
  have hlive : (live.map (·.id)).length < 4294967296 := by
    have hle := AgentTable.length_list_le hdec.list_eq
    rw [ht', AgentTable.overwrite, Table.modify, List.length_map] at hlen
    rw [List.length_map]
    omega
  have hasc : (live.map (·.id)).Pairwise (· < ·) := by
    rw [← AgentTable.roll_eq_of_list hdec.list_eq]
    exact AgentTable.roll_ascending hdec.ordered
  -- The own record is among the live ones, so the decision gives it a share.
  have hmem : own.id ∈ live.map (·.id) := List.mem_map_of_mem hdec.own_mem
  rcases dynamicAssignment_of_mem hmem hlive with ⟨s, hs, htotal, hindex⟩
  have hassigned : me.assignment = some s := by
    have hdecision : l.decision own live =
        decideDynamic own (live.map (·.id)) (live.filter (·.id ≠ own.id)) := by
      rw [decision, hconf]
    have hdecided := decideDynamic_assignment own (live.map (·.id)) (live.filter (·.id ≠ own.id))
    rw [← hdecision, hs] at hdecided
    rw [hme]
    exact hdecided
  rcases Agent.assignment_eq_some_iff.mp hassigned with ⟨hmeTotal, hmeIndex⟩
  refine ⟨⟨live.map (·.id), now⟩, s, ⟨?_, hasc, hid ▸ hmem, hid ▸ hs, ?_, ?_, ?_, htotal⟩,
    hassigned⟩
  · rw [hme]
    rfl
  · rw [Agent.row, hmeTotal]
    rfl
  · rw [Agent.row, hmeIndex]
    rfl
  · exact UInt32.lt_iff_toNat_lt.mp s.index_lt

end Writes

end Link

/-- A pulse of a dynamic agent, or of one of another role. -/
theorem AgentTable.Decided.write {t t' : AgentTable} {role : String} {l : Link} {now : Int}
    {me : Agent} (hord : t.Ordered) (h : t.Decided role) (hwrites : l.Writes now t me t')
    (hconf : l.role = role → l.configured = none) (hlen : t'.rows.length < 4294967296) :
    t'.Decided role := by
  intro p hp hrole
  rcases (hwrites.mem_rows hord).mp hp with rfl | ⟨_, hbefore, _⟩
  · rcases hwrites.follows hord (hconf ((hwrites.role_eq hord).symm.trans hrole)) hlen with
      ⟨view, s, hfollows, _⟩
    exact ⟨view, s, hfollows⟩
  · exact h p hbefore hrole

namespace Link

/-- The link is dynamic, and it has published a shard if it has published an id or runs. -/
structure Sharded (l : Link) : Prop where
  dynamic : l.configured = none
  assigned : l.snapshot.agentId.isSome = true → l.snapshot.assignment.isSome = true
  running : l.snapshot.state = .running → l.snapshot.assignment.isSome = true

/-- A link that has joined, or has left, has published neither. -/
theorem Sharded.of_unpublished {l : Link} (hconf : l.configured = none)
    (hagent : l.snapshot.agentId = none) (hstate : l.snapshot.state ≠ .running) : l.Sharded where
  dynamic := hconf
  assigned := fun h => absurd h (by rw [hagent]; exact Bool.false_ne_true)
  running := fun h => absurd h hstate

/-- The agent goes on as before, or it is suspended. -/
theorem Sharded.suspend {l l' : Link} (h : l.Sharded) (hconf : l'.configured = l.configured)
    (hsnapshot : l'.snapshot = l.snapshot ∨ l'.snapshot = { l.snapshot with state := .suspended }) :
    l'.Sharded := by
  refine ⟨hconf.trans h.dynamic, ?_, ?_⟩
  · rcases hsnapshot with heq | heq
    · rw [heq]
      exact h.assigned
    · rw [heq]
      exact h.assigned
  · rcases hsnapshot with heq | heq
    · rw [heq]
      exact h.running
    · rw [heq]
      exact fun hrun => nomatch hrun

/-- The records of a role were decided on their views, and the link is sharded if it is one
    of the role. -/
structure Recorded (l : Link) (role : String) (t : AgentTable) : Prop where
  ordered : t.Ordered
  decided : t.Decided role
  sharded : l.role = role → l.Sharded

section Attempts

variable {l : Link} {role : String} {t : AgentTable} (access : Access)

theorem pulse_recorded (moment : Moment) (h : l.Recorded role t)
    (hlen : (l.pulse moment access t).table.rows.length < 4294967296) :
    (l.pulse moment access t).link.Recorded role (l.pulse moment access t).table := by
  rcases l.pulse_cases moment access t with ⟨me, reported, hwrites, hlink, _⟩ |
    ⟨selfId, reported, htable, hlink, _⟩ | ⟨_, htable, hlink, _⟩
  · have hconf := fun hrole => (h.sharded hrole).dynamic
    refine ⟨hwrites.ordered h.ordered, h.decided.write h.ordered hwrites hconf hlen,
      fun hrole => ?_⟩
    rw [hlink] at hrole ⊢
    rcases hwrites.follows h.ordered (hconf hrole) hlen with ⟨_, s, _, hassigned⟩
    have hsome : me.assignment.isSome = true := by
      rw [hassigned]
      rfl
    exact ⟨hconf hrole, fun _ => hsome, fun _ => hsome⟩
  -- A pulse that has failed may have lost its id, but the law is about records and snapshots.
  · rw [htable]
    refine ⟨h.ordered, h.decided, fun hrole => ?_⟩
    rw [hlink] at hrole ⊢
    exact (h.sharded hrole).suspend rfl (afterFailure_snapshot
      { l with selfId, conflictReported := reported } moment.opened)
  · rw [htable, hlink]
    exact h

theorem renew_recorded (moment : Moment) (h : l.Recorded role t) :
    (l.renew moment access t).link.Recorded role (l.renew moment access t).table := by
  rcases (l.renew_cases moment access t).2 with ⟨_, htable, hlink⟩ | ⟨_, hrenews, hlink⟩ |
    ⟨_, htable, hlink⟩
  · rw [htable, hlink]
    exact h
  · refine ⟨hrenews.ordered h.ordered, h.decided.renew h.ordered hrenews, fun hrole => ?_⟩
    rw [hlink] at hrole ⊢
    have hsharded := h.sharded hrole
    exact ⟨hsharded.dynamic, hsharded.assigned, hsharded.running⟩
  · rw [htable]
    refine ⟨h.ordered, h.decided, fun hrole => ?_⟩
    -- The snapshot is the same as before, or suspended.
    rcases hlink with heq | heq
    · rw [heq] at hrole ⊢
      exact (h.sharded hrole).suspend rfl (Or.inr rfl)
    · rw [heq] at hrole ⊢
      exact (h.sharded hrole).suspend rfl (l.afterFailure_snapshot _)

theorem leave_recorded (h : l.Recorded role t) :
    (l.leave access t).link.Recorded role (l.leave access t).table := by
  rcases (l.leave_cases access t).2 with ⟨_, htable, hlink⟩ | ⟨id, _, htable, hlink⟩
  · rw [htable, hlink]
    exact h
  · have hsharded : (l.leave access t).link.role = role → (l.leave access t).link.Sharded := by
      rw [hlink]
      exact fun hrole =>
        Sharded.of_unpublished (h.sharded hrole).dynamic rfl AgentState.noConfusion
    rcases htable with heq | heq
    · rw [heq]
      exact ⟨h.ordered.delete [id],
        h.decided.of_subset (fun _ hp _ => (Table.mem_delete.mp hp).1), hsharded⟩
    · rw [heq]
      exact ⟨h.ordered, h.decided, hsharded⟩

end Attempts

end Link

namespace Roster

/-- The records of the role were decided on their views, and all links of the role are
    sharded. -/
structure Recording (role : String) (m : Roster) : Prop where
  ordered : m.agents.Ordered
  decided : m.agents.Decided role
  sharded : ∀ name member, m.find? name = some member → member.link.role = role →
    member.link.Sharded

theorem recording_init (role : String) (wall : WallClock) : Recording role { wall } where
  ordered := Table.ordered_empty
  decided := AgentTable.decided_empty role
  sharded := fun _ _ hfind => absurd hfind (by simp [find?])

namespace Recording

variable {role : String} {m : Roster}

theorem recorded (h : Recording role m) {name : String} {member : Member}
    (hfind : m.find? name = some member) : member.link.Recorded role m.agents :=
  ⟨h.ordered, h.decided, h.sharded name member hfind⟩

/-- A link and the table have changed. -/
theorem setMember (h : Recording role m) {name : String} {member : Member} {t' : AgentTable}
    (hrecorded : member.link.Recorded role t') :
    Recording role ({ m with agents := t' }.setMember name member) := by
  refine ⟨hrecorded.ordered, hrecorded.decided, fun name' member' hfind hrole => ?_⟩
  rcases cases_setMember hfind with ⟨_, rfl⟩ | ⟨_, hbefore⟩
  · exact hrecorded.sharded hrole
  · exact h.sharded name' member' hbefore hrole

/-- A link has made an attempt. -/
theorem attempt (h : Recording role m) {name : String} {waited : Waited}
    {act : Link → Moment → Access → AgentTable → Attempt}
    (hact : ∀ l access, l.Recorded role m.agents →
      (m.attempt name waited act).1.agents = (act l (m.moment waited) access m.agents).table →
        (act l (m.moment waited) access m.agents).link.Recorded role
          (act l (m.moment waited) access m.agents).table) :
    Recording role (m.attempt name waited act).1 := by
  unfold Roster.attempt at hact ⊢
  cases hfind : m.find? name with
  | none => exact h
  | some member =>
      rw [hfind] at hact
      exact h.setMember (hact member.link member.access (h.recorded hfind) rfl)

/-- The access of a link has changed. -/
theorem modifyAccess (h : Recording role m) (name : String) (change : Access → Access) :
    Recording role (m.modifyAccess name change) := by
  unfold Roster.modifyAccess
  cases hfind : m.find? name with
  | none => exact h
  | some member => exact h.setMember ⟨h.ordered, h.decided, h.sharded name member hfind⟩

/-- Rows that were there before, and the links as they were. -/
theorem of_subset (h : Recording role m) {m' : Roster} (hord : m'.agents.Ordered)
    (hsub : ∀ p ∈ m'.agents.rows, p.2.role = role → p ∈ m.agents.rows)
    (hmembers : ∀ name member, m'.find? name = some member → m.find? name = some member) :
    Recording role m' :=
  ⟨hord, h.decided.of_subset hsub,
    fun name member hfind => h.sharded name member (hmembers name member hfind)⟩

end Recording

/-- Every event keeps the invariant, if the table does not grow too large. -/
theorem recording_step {role : String} {m : Roster} {e : Event} (h : Recording role m)
    (hkeeps : e.KeepsDynamic role) (hlen : (m.step e).1.agents.rows.length < 4294967296) :
    Recording role (m.step e).1 := by
  cases e with
  | join name role' configured expiration =>
      exact h.setMember ⟨h.ordered, h.decided,
        fun hrole => .of_unpublished (hkeeps hrole) rfl AgentState.noConfusion⟩
  | pulse name waited =>
      refine h.attempt (fun l access hrecorded htable => ?_)
      exact Link.pulse_recorded access _ hrecorded (htable ▸ hlen)
  | renew name waited =>
      exact h.attempt (fun _ access hrecorded _ => Link.renew_recorded access _ hrecorded)
  | leave name => exact h.attempt (fun _ access hrecorded _ => Link.leave_recorded access hrecorded)
  | crash name =>
      refine h.of_subset h.ordered (fun _ hp _ => hp) (fun name' member hfind => ?_)
      rw [step, find?_crash] at hfind
      split at hfind
      · cases hfind
      · exact hfind
  | arm name point times error =>
      exact h.modifyAccess name fun a => { a with faults := a.faults.arm point times error }
  | close name => exact h.modifyAccess name fun a => { a with closed := true }
  | advance | setClock => exact h.of_subset h.ordered (fun _ hp _ => hp) (fun _ _ hfind => hfind)
  -- A row from outside is of another role, and the invariant is not about it.
  | put row =>
      refine h.of_subset (h.ordered.insert row) (fun p hp hrole => ?_) (fun _ _ hfind => hfind)
      rcases Table.mem_insert.mp hp with hbefore | rfl
      · exact hbefore
      · exact absurd hrole hkeeps
  | delete ids =>
      exact h.of_subset (h.ordered.delete ids) (fun _ hp _ => (Table.mem_delete.mp hp).1)
        (fun _ _ hfind => hfind)

/-- A pulse that comes through publishes an id and a shard. -/
theorem Recording.publishes {role : String} {m : Roster} {name : String} {waited : Waited}
    {member : Member} (h : Recording role m) (hfind : m.find? name = some member)
    (hrole : member.link.role = role) (hthrough : Unfailing m (.pulse name waited))
    (hlen : (m.step (.pulse name waited)).1.agents.rows.length < 4294967296) :
    ∃ member', (m.step (.pulse name waited)).1.find? name = some member' ∧
      member'.link.snapshot.agentId.isSome = true ∧
      member'.link.snapshot.assignment.isSome = true := by
  rcases pulse_through hfind hthrough with ⟨access, me, reported, t', hwrites, hstep, _⟩
  rw [hstep] at hlen ⊢
  have hconf := (h.sharded name member hfind hrole).dynamic
  rcases hwrites.follows h.ordered hconf hlen with ⟨_, s, _, hassigned⟩
  refine ⟨_, find?_setMember_self, rfl, ?_⟩
  show me.assignment.isSome = true
  rw [hassigned]
  rfl

end Roster

end OutboxCluster
