import OutboxCluster.Proofs.Atomic
import OutboxCluster.Proofs.Run

/-!
# What an Attempt Leaves Alone

The rows that an attempt writes, as an equation between tables. The laws about runs get
by with what rows there are afterwards, and `Writes.mem_rows` tells them. An equation says
more: in which order the rows stand, that none is there twice, and what the next id will
be. A delete list that is off by one, or an update that reaches a second row, is ruled out
by it at once.

A pulse removes the records of its role whose lease is over, and `AgentTable.reclaimed`
is the table without them. Then it either changes the row of its own record, which was
live and so is still there, or adds a row under the next id. That id is above all that
were ever given, in this table and in every earlier one. A renewal changes one column of
one row, and a departure removes a row.

The own record of a link is the one whose id it remembers.

## Main definitions

* `AgentTable.reclaimed`: The table without the records that are over.

## Theorems

* `delete_expired`: What a pulse removes.
* `overwrite_eq_modify`, `overwrite_insert`: What it writes.
* `ordered_run`, `lt_nextId_of_run`: Rows stay in order, and ids are not given twice.
* `Writes.table_eq`, `Renews.table_eq`: The tables after the attempts.
* `attempts_change_own_record`: The three attempts, if they come through.
-/

namespace OutboxCluster

namespace AgentTable

variable {t : AgentTable} {role : String} {now : Int}

/-- The table without the records of a role whose lease is over. -/
def reclaimed (t : AgentTable) (role : String) (now : Int) : AgentTable :=
  { t with rows := t.rows.filter fun p => ! (p.2.role == role && decide (p.2.expiration < now)) }

theorem mem_rows_reclaimed {p : Int × AgentRow} : p ∈ (t.reclaimed role now).rows ↔
    p ∈ t.rows ∧ ¬ (p.2.role = role ∧ p.2.expiration < now) := by
  rw [reclaimed, List.mem_filter, Bool.not_eq_true', Bool.and_eq_false_iff,
    beq_eq_false_iff_ne, decide_eq_false_iff_not, not_and_or]

/-- The listed records whose lease is over are all that there are of the role. -/
theorem delete_expired (hord : t.Ordered) {agents : List Agent}
    (hlist : t.list role = .ok agents) :
    t.delete ((agents.filter (·.isExpired now)).map (·.id)) = t.reclaimed role now := by
  have hmem : ∀ p : Int × AgentRow,
      p ∈ (t.delete ((agents.filter (·.isExpired now)).map (·.id))).rows ↔
        p ∈ (t.reclaimed role now).rows :=
    fun p => (mem_reclaimed hord hlist).trans mem_rows_reclaimed.symm
  -- Both are the rows of `t` that pass a test, so they agree where the tests do.
  simp only [Table.delete, reclaimed, List.mem_filter] at hmem ⊢
  refine congrArg (fun rows => ({ rows, lastId := t.lastId } : AgentTable))
    (List.filter_congr (fun p hp => Bool.eq_iff_iff.mpr ?_))
  exact and_congr_right_iff.mp (hmem p) hp

theorem ordered_reclaimed (hord : t.Ordered) : (t.reclaimed role now).Ordered where
  ascending := hord.ascending.filter _
  le_lastId := fun p hp => hord.le_lastId p (mem_rows_reclaimed.mp hp).1

/-- Overwriting a record changes the row with its id, if that is of the role. -/
theorem overwrite_eq_modify (hord : t.Ordered) {a : Agent} {row : AgentRow}
    (hrow : (a.id, row) ∈ t.rows) (hrole : row.role = a.role) :
    t.overwrite a = t.modify a.id fun _ => a.row := by
  simp only [overwrite, Table.modify]
  refine congrArg (fun rows => ({ rows, lastId := t.lastId } : AgentTable))
    (List.map_congr_left (fun p hp => ?_))
  by_cases hid : p.1 = a.id
  · have hsame : p = (a.id, row) := hord.eq_of_id_eq hp hrow hid
    rw [if_pos hid, if_pos hid, hsame, if_pos hrole]
  · rw [if_neg hid, if_neg hid]

/-- Overwriting a record that has just been added is adding what is written. -/
theorem overwrite_insert (hord : t.Ordered) {a : Agent} {row : AgentRow} (hid : a.id = t.nextId)
    (hrole : row.role = a.role) : overwrite (t.insert row) a = t.insert a.row := by
  simp only [overwrite, Table.modify, Table.insert, List.map_append, List.map_cons, List.map_nil]
  rw [hid, if_pos rfl, if_pos hrole]
  refine congrArg (fun rows => ({ rows := rows ++ _, lastId := t.nextId } : AgentTable)) ?_
  -- No row of before has the next id.
  refine (List.map_congr_left (fun p hp => if_neg ?_)).trans (List.map_id _)
  intro heq
  have hmem := Table.mem_ids_of_mem hp
  rw [heq] at hmem
  exact hord.nextId_not_mem hmem

end AgentTable

namespace Roster

theorem ordered_step {m : Roster} (hord : m.agents.Ordered) (e : Event) :
    (m.step e).1.agents.Ordered := by
  rcases (outcome_step m e).agents_cases with
    hsame | ⟨_, _, _, _, _, hwrites⟩ | ⟨_, _, _, _, hrenews⟩ | ⟨_, hdelete⟩ | ⟨_, _, hinsert⟩
  · exact hsame ▸ hord
  · exact hwrites.ordered hord
  · exact hrenews.ordered hord
  · exact hdelete ▸ hord.delete _
  · exact hinsert ▸ hord.insert _

/-- The rows stand in order in every run. -/
theorem ordered_run {m : Roster} (hord : m.agents.Ordered) (events : List Event) :
    (m.run events).agents.Ordered := by
  induction events generalizing m with
  | nil => exact hord
  | cons e events ih => exact ih (ordered_step hord e)

/-- The next id never goes back. -/
theorem lastId_le_step (m : Roster) (e : Event) : m.agents.lastId ≤ (m.step e).1.agents.lastId := by
  rcases (outcome_step m e).agents_cases with
    hsame | ⟨_, _, _, _, _, hwrites⟩ | ⟨_, _, _, _, hrenews⟩ | ⟨_, hdelete⟩ | ⟨_, _, hinsert⟩
  · exact Int.le_of_eq (congrArg Table.lastId hsame).symm
  · exact hwrites.lastId_le
  · exact Int.le_of_eq hrenews.lastId.symm
  · rw [hdelete]
    exact Int.le_refl _
  · rw [hinsert, Table.lastId_insert, Table.nextId]
    omega

theorem lastId_le_run (m : Roster) (events : List Event) :
    m.agents.lastId ≤ (m.run events).agents.lastId := by
  induction events generalizing m with
  | nil => exact Int.le_refl _
  | cons e events ih => exact Int.le_trans (m.lastId_le_step e) (ih _)

/-- The next id is above that of every record that there has been. -/
theorem lt_nextId_of_run {m : Roster} (hord : m.agents.Ordered) (events : List Event) {id : Int}
    (hid : id ∈ m.agents.ids) : id < (m.run events).agents.nextId := by
  have hbefore := hord.id_le_lastId hid
  have hgrows := m.lastId_le_run events
  simp only [Table.nextId]
  omega

end Roster

namespace Link

variable {l : Link} {now : Int} {t t' : AgentTable} {me : Agent}

/-- A lease that does not reach the end of the clock lasts as long as it should. -/
theorem leaseEnd_eq (hnow : minReading ≤ now) (hexpiration : (l.expiration : Int) ≤ maxReading) :
    l.leaseEnd now = min (now + l.expiration) maxReading := by
  unfold leaseEnd saturate
  simp only [minReading, maxReading] at *
  omega

/-- A decision leaves the name of a record alone. -/
theorem decision_name (l : Link) (me : Agent) (live : List Agent) :
    (l.decision me live).name = me.name := by
  unfold decision decideDynamic decideStatic
  cases l.configured with
  | some configured => rfl
  | none =>
      dsimp only
      split
      · rfl
      · split <;> rfl

/-- The table after a pulse that came through. -/
theorem Writes.table_eq (hord : t.Ordered) (h : l.Writes now t me t') :
    (∃ old, l.selfId = some old.id ∧ t.Holds old ∧ old.role = l.role ∧ now ≤ old.expiration ∧
      me.id = old.id ∧ me.name = old.name ∧
      t' = (t.reclaimed l.role now).modify old.id fun _ => me.row) ∨
    (¬ l.Leased now t ∧ me.id = t.nextId ∧ me.name = l.name ∧
      t' = (t.reclaimed l.role now).insert me.row) := by
  have hrole := h.role_eq hord
  rcases h with ⟨agents, own, live, t₁, hlist, henrols, hme, _, ht'⟩
  rw [AgentTable.delete_expired hord hlist] at henrols
  have hid : me.id = own.id := by
    rw [hme, (leased_fields _ _ _ _).1, (decision_fields _ _ _).1]
  have hname : me.name = own.name := by
    rw [hme]
    exact decision_name l own live
  -- A record that is kept is written where it stands, and a new one stands at the end.
  cases henrols with
  | own hmem hself =>
      rw [List.mem_filter, Bool.not_eq_true', Agent.isExpired, decide_eq_false_iff_not,
        Int.not_lt] at hmem
      have hheld := (AgentTable.mem_list_iff hlist).mp hmem.1
      have hrow : (me.id, own.row) ∈ (t.reclaimed l.role now).rows := by
        rw [hid]
        exact AgentTable.mem_rows_reclaimed.mpr
          ⟨hheld.1, fun hover => Int.not_lt.mpr hmem.2 hover.2⟩
      refine Or.inl ⟨own, hself, hheld.1, hheld.2, hmem.2, hid, hname, ?_⟩
      rw [ht', ← hid]
      exact AgentTable.overwrite_eq_modify (AgentTable.ordered_reclaimed hord) hrow
        (hheld.2.trans hrole.symm)
  | new hmissing =>
      refine Or.inr ⟨?_, hid, hname, ?_⟩
      · rintro ⟨old, hself, hheld, hrole, hlive⟩
        have hmem := (AgentTable.mem_list_iff hlist).mpr ⟨hheld, hrole⟩
        exact hmissing old (List.mem_filter.mpr ⟨hmem, by rw [hlive]; rfl⟩) hself
      · rw [ht', AgentTable.overwrite_insert (AgentTable.ordered_reclaimed hord) hid hrole.symm]

/-- The table after a renewal that came through. -/
theorem Renews.table_eq (hord : t.Ordered) (h : l.Renews now t t') :
    ∃ me, l.selfId = some me.id ∧ t.Holds me ∧ me.role = l.role ∧ now ≤ me.expiration ∧
      t' = t.modify me.id fun row => { row with expiration := l.leaseEnd now } := by
  rcases h with ⟨me, hself, hheld, hrole, hlive, rfl⟩
  rw [Agent.isExpired, decide_eq_false_iff_not, Int.not_lt] at hlive
  refine ⟨me, hself, hheld, hrole, hlive, ?_⟩
  have hwrite : t.overwrite { me with expiration := l.leaseEnd now } =
      t.modify me.id fun _ => Agent.row { me with expiration := l.leaseEnd now } :=
    AgentTable.overwrite_eq_modify hord hheld rfl
  rw [hwrite]
  simp only [Table.modify]
  refine congrArg (fun rows => ({ rows, lastId := t.lastId } : AgentTable))
    (List.map_congr_left (fun p hp => ?_))
  by_cases hid : p.1 = me.id
  · have hsame : p = (me.id, me.row) := hord.eq_of_id_eq hp hheld hid
    rw [if_pos hid, if_pos hid, hsame]
    rfl
  · rw [if_neg hid, if_neg hid]

/-- A lease is written by its owner alone, and only records that are over are removed. A
    pulse that comes through has removed exactly the records of its role that are over. The
    own record, if it was live, is still in its row, and has the new lease; otherwise the
    agent has a new row, under an id above that of every record there has ever been. A
    renewal has changed the lease in the row of the own record, which was live, and one
    whose record is over changes nothing, whatever becomes of its session. A departure has
    removed the own row. All other rows are as before, in the same order. -/
theorem attempts_change_own_record (l : Link) (moment : Moment) (access : Access)
    {t : AgentTable} (hord : t.Ordered) (hwall : minReading ≤ moment.wall)
    (hexpiration : (l.expiration : Int) ≤ maxReading) :
    (∀ me, l.pulseResult moment access t = .ok me →
      me.role = l.role ∧ me.expiration = min (moment.wall + l.expiration) maxReading ∧
      ((∃ old, l.selfId = some old.id ∧ t.Holds old ∧ old.role = l.role ∧
          moment.wall ≤ old.expiration ∧ me.id = old.id ∧ me.name = old.name ∧
          (l.pulse moment access t).table =
            (t.reclaimed l.role moment.wall).modify old.id fun _ => me.row) ∨
        (¬ l.Leased moment.wall t ∧ me.name = l.name ∧
          (∀ (m : Roster) events, m.agents.Ordered → (m.run events).agents = t →
            ∀ id ∈ m.agents.ids, id < me.id) ∧
          me.id = t.nextId ∧
          (l.pulse moment access t).table = (t.reclaimed l.role moment.wall).insert me.row))) ∧
    (l.snapshot.state ≠ .suspended → l.renewResult moment access t = .ok true →
      ∃ me, l.selfId = some me.id ∧ t.Holds me ∧ me.role = l.role ∧
        moment.wall ≤ me.expiration ∧ (l.renew moment access t).table = t.modify me.id
          fun row => { row with expiration := min (moment.wall + l.expiration) maxReading }) ∧
    (∀ id row, l.selfId = some id → (id, row) ∈ t.rows → row.expiration < moment.wall →
      (l.renew moment access t).table = t) ∧
    (∀ id, l.selfId = some id → (l.leaveResult access t id).isOk = true →
      (l.leave access t).table = t.delete [id]) ∧
    (l.selfId = none → (l.leave access t).table = t) := by
  have hlease := leaseEnd_eq hwall hexpiration
  refine ⟨fun me hme => ?_, fun hstate hrenewed => ?_, fun id row hself hrow hover => ?_,
    fun id hself hleft => ?_, fun hself => ?_⟩
  · rcases Session.run_of_ends (fun _ => true) access
      (ends_pulseSession l moment.wall t access) with
      ⟨me', s, ⟨hwrites, _, _⟩, hrun⟩ | ⟨e, s, _, hrun⟩
    · rw [pulseResult, hrun, Except.ok.injEq] at hme
      subst hme
      have htable : (l.pulse moment access t).table = s.table := by
        simp only [pulse, hrun, if_true]
      rw [htable]
      have hend : me'.expiration = l.leaseEnd moment.wall := by
        rcases hwrites with ⟨_, _, _, _, _, _, hme, _⟩
        rw [hme]
        rfl
      refine ⟨hwrites.role_eq hord, hend.trans hlease, ?_⟩
      rcases hwrites.table_eq hord with hold | ⟨hmissing, hid, hname, htable⟩
      · exact Or.inl hold
      · refine Or.inr ⟨hmissing, hname, fun m events hm hrun' id hid' => ?_, hid, htable⟩
        rw [hid, ← hrun']
        exact Roster.lt_nextId_of_run hm events hid'
    · rw [pulseResult, hrun] at hme
      cases hme
  · rcases Session.run_of_ends id access (ends_renewSession l moment.wall t access) with
      ⟨renewed, s, ⟨_, _, hrenews⟩, hrun⟩ | ⟨e, s, _, hrun⟩
    · rw [renewResult, hrun, Except.ok.injEq] at hrenewed
      have htable : (l.renew moment access t).table = s.table := by
        simp only [renew, if_neg hstate, hrun, hrenewed, id, if_true]
      rw [htable, ← hlease]
      exact (hrenews hrenewed).table_eq hord
    · rw [renewResult, hrun] at hrenewed
      cases hrenewed
  · rcases (l.renew_cases moment access t).2 with
      ⟨_, htable, _⟩ | ⟨_, ⟨me, hme, hheld, _, hlive, _⟩, _⟩ | ⟨_, htable, _⟩
    · exact htable
    · -- The row of the own id is the one that is over, so it is not renewed.
      have hid : me.id = id := Option.some.inj (hme.symm.trans hself)
      have hsame := hord.eq_of_id_eq hheld hrow hid
      rw [Prod.mk.injEq] at hsame
      rw [Agent.isExpired, decide_eq_false_iff_not] at hlive
      rw [← hsame.2] at hover
      exact absurd hover hlive
    · exact htable
  · rcases Session.run_of_ends (fun _ => true) access
      (ends_leaveSession { l with selfId := none } id t access) with
      ⟨_, s, ⟨_, _, htable⟩, hrun⟩ | ⟨e, s, _, hrun⟩
    · simp only [leave, hself, hrun, if_true, htable]
    · rw [leaveResult, hrun] at hleft
      cases hleft
  · rcases (l.leave_cases access t).2 with ⟨_, htable, _⟩ | ⟨id, hid, _⟩
    · exact htable
    · cases hself.symm.trans hid

/-- A record of one agent, one of a peer that is live, one of a peer that is over, and one
    of another role that is over as well. -/
def mingled : AgentTable :=
  { rows := [(1, ⟨"r", "a", 3000, .running, none, none, none⟩),
      (2, ⟨"r", "b", 500, .running, none, none, none⟩),
      (4, ⟨"r", "c", 499, .running, none, none, none⟩),
      (5, ⟨"q", "d", 100, .running, none, none, none⟩)]
    lastId := 7 }

/-- The first agent of `mingled`, and one that has no record. -/
def enlisted (selfId : Option Int) : Link :=
  { name := "a", role := "r", configured := none, expiration := 3000, selfId }

/-- The record that is over goes, the other role is left alone, and who has no record gets
    one under a new id. -/
theorem attempts_change_own_record_mingled :
    (∃ me, (enlisted (some 1)).pulseResult ⟨500, 500, 500⟩ {} mingled = .ok me ∧
      me.expiration = 3500 ∧ ((enlisted (some 1)).pulse ⟨500, 500, 500⟩ {} mingled).table =
        (mingled.reclaimed "r" 500).modify 1 fun _ => me.row) ∧
    (mingled.reclaimed "r" 500).ids = [1, 2, 5] ∧
    (∃ me, (enlisted none).pulseResult ⟨500, 500, 500⟩ {} mingled = .ok me ∧ me.id = 8) ∧
    ((enlisted (some 1)).renew ⟨500, 500, 500⟩ {} mingled).table =
      mingled.modify 1 (fun row => { row with expiration := 3500 }) ∧
    ((enlisted (some 4)).renew ⟨500, 500, 500⟩ {} mingled).table = mingled ∧
    ((enlisted (some 1)).leave {} mingled).table = mingled.delete [1] := by
  have hord : mingled.Ordered := ⟨by decide, by decide⟩
  have hresult : ∀ selfId ∈ [some 1, none], ((enlisted selfId).pulseResult ⟨500, 500, 500⟩ {}
      mingled).isOk = true := by decide +kernel
  have hexpiration : ((3000 : Nat) : Int) ≤ maxReading := by decide
  have hlaw := fun selfId => attempts_change_own_record (enlisted selfId) ⟨500, 500, 500⟩ {} hord
    (by decide) hexpiration
  refine ⟨?_, by decide, ?_, ?_, ?_, ?_⟩
  · cases hme : (enlisted (some 1)).pulseResult ⟨500, 500, 500⟩ {} mingled with
    | error e =>
        have := hresult (some 1) (by decide)
        rw [hme] at this
        cases this
    | ok me =>
        rcases (hlaw (some 1)).1 me hme with
          ⟨_, hend, ⟨old, hself, _, _, _, _, _, htable⟩ | ⟨hmissing, _⟩⟩
        · rw [← Option.some.inj hself] at htable
          exact ⟨me, rfl, hend, htable⟩
        · exact absurd ⟨⟨1, "r", "a", 3000, .running, none, none, none⟩, rfl,
            List.mem_cons_self, rfl, rfl⟩ hmissing
  · cases hme : (enlisted none).pulseResult ⟨500, 500, 500⟩ {} mingled with
    | error e =>
        have := hresult none (by decide)
        rw [hme] at this
        cases this
    | ok me =>
        rcases (hlaw none).1 me hme with ⟨_, _, ⟨old, hself, _⟩ | ⟨_, _, _, hid, _⟩⟩
        · cases hself
        · exact ⟨me, rfl, hid⟩
  · rcases (hlaw (some 1)).2.1 (by decide) (by decide +kernel) with ⟨me, hself, _, _, _, htable⟩
    rw [← Option.some.inj hself] at htable
    exact htable
  · exact (hlaw (some 4)).2.2.1 4 ⟨"r", "c", 499, .running, none, none, none⟩ rfl (by decide)
      (by decide)
  · exact (hlaw (some 1)).2.2.2.1 1 rfl (by decide +kernel)

end Link

end OutboxCluster
