import OutboxCluster.Proofs.Pulse

/-!
# Attempts without Failures

If no use of the tables is planned to fail and the access is open, then a session
cannot be refused. What is left that could stop it is what it finds: a table that it
cannot read, no record where it has put one, or a lease that has been over for too long.
The first is the matter of an invariant, and the second does not happen, since a pulse
writes the record that it has just read or inserted. At the third a pulse breaks down, and
changes nothing.

The rules follow those of `OutboxCluster.Proofs.Session`, without failures. So the law of a
session is that it comes through or breaks down, and what it has done is read off the laws
about both outcomes.

## Main definitions

* `Access.Calm`: No use fails.

## Theorems

* `calm_pulseSession`, `calm_renewSession`: The sessions do not fail.
* `pulse_calm`, `renew_calm`: What the attempts have done.
-/

namespace OutboxCluster

/-- No use is planned to fail, and the access is open. -/
structure Access.Calm (a : Access) : Prop where
  unarmed : a.faults.armed = []
  opened : a.closed = false

/-- Where nothing is planned nothing fails, and the plan stays as it is. -/
theorem Faults.strike_unarmed {f : Faults} (h : f.armed = []) (point : UsePoint) :
    f.strike point = (none, f) := by
  unfold strike
  rw [h]
  rfl

namespace SessionM

section Rules

variable {s : Session} {failed : Interruption → Session → Prop}

theorem calm_use {point : UsePoint} {done : PUnit → Session → Prop} (h : s.access.Calm)
    (hdone : done ⟨⟩ s) : (use point).Ends s done failed := by
  refine ends_bind (ends_get ?_)
  rw [Faults.strike_unarmed h.unarmed]
  exact ends_bind (ends_set hdone)

theorem calm_begin {done : PUnit → Session → Prop} (h : s.access.Calm) (hdone : done ⟨⟩ s) :
    begin.Ends s done failed := by
  refine ends_bind (calm_use h (ends_bind (ends_get ?_)))
  rw [h.opened]
  exact ends_pure hdone

theorem calm_list {done : List Agent → Session → Prop} {agents : List Agent} (h : s.access.Calm)
    (hlist : s.table.list s.link.role = .ok agents) (hdone : done agents s) :
    list.Ends s done failed := by
  refine ends_bind (calm_use h (ends_bind (ends_get ?_)))
  rw [hlist]
  exact ends_pure hdone

theorem calm_create {agent : Agent} {done : Agent → Session → Prop} (h : s.access.Calm)
    (hdone : done { agent with id := s.table.nextId }
      { s with table := s.table.insert agent.row }) : (create agent).Ends s done failed :=
  ends_bind (calm_use h (ends_bind (ends_get (ends_bind (ends_set (ends_pure hdone))))))

theorem calm_update {agent : Agent} {done : Bool → Session → Prop} (h : s.access.Calm)
    (hdone : done (s.table.holds agent) { s with table := s.table.overwrite agent }) :
    (update agent).Ends s done failed := by
  refine ends_bind (calm_use h (ends_bind (ends_get ?_)))
  rw [Faults.strike_unarmed h.unarmed]
  exact ends_bind (ends_set (ends_pure hdone))

theorem calm_delete {ids : List Int} {done : PUnit → Session → Prop} (h : s.access.Calm)
    (hdone : done ⟨⟩ { s with table := s.table.delete ids }) : (delete ids).Ends s done failed :=
  ends_bind (calm_use h (ends_modify hdone))

end Rules

end SessionM

namespace Link

open SessionM

section Sessions

variable {l : Link} {now : Int} {s : Session} {failed : Interruption → Session → Prop}

theorem calm_reclaim {expired : List Agent} {done : PUnit → Session → Prop} (h : s.access.Calm)
    (hdone : ∀ ns, done ⟨⟩ { s with notices := ns, table := s.table.delete (expired.map (·.id)) })
    (hbroken : ∀ ns, failed .overflow { s with notices := ns }) :
    (l.reclaim now expired).Ends s done failed := by
  unfold reclaim
  cases expired with
  | nil =>
      have hsame := hdone s.notices
      rw [List.map_nil, Table.delete_nil] at hsame
      exact ends_pure hsame
  | cons a as =>
      exact ends_bind (ends_announces (fun _ _ => calm_delete h (hdone _))
        (fun _ _ _ _ _ _ _ => hbroken _))

theorem calm_register {live : List Agent} {done : Agent × List Agent → Session → Prop}
    (h : s.access.Calm) (hdone : ∀ own live' t₁, l.Enrols now live s.table own live' t₁ →
      ∀ selfId ns, done (own, live') { s with link.selfId := selfId, notices := ns, table := t₁ }) :
    (l.register now live).Ends s done failed := by
  unfold register
  cases hfind : live.find? fun a => l.selfId = some a.id with
  | some me =>
      have hself := List.find?_some hfind
      have henrols : l.Enrols now live s.table me live s.table :=
        Enrols.own (List.mem_of_find?_eq_some hfind) (of_decide_eq_true hself)
      exact ends_pure (hdone me live s.table henrols s.link.selfId s.notices)
  | none =>
      have hmissing : ∀ a ∈ live, l.selfId ≠ some a.id := by
        intro a ha hself
        have := List.find?_eq_none.mp hfind a ha
        exact this (decide_eq_true hself)
      have hnew := hdone _ _ _ (Enrols.new hmissing) (some s.table.nextId)
      dsimp only
      -- The notice about an old id makes no difference to what follows.
      cases l.selfId with
      | none =>
          refine ends_bind (calm_create h ?_)
          exact ends_bind (ends_report (ends_bind (ends_remember (ends_pure (hnew _)))))
      | some old =>
          refine ends_bind (ends_report (ends_bind (calm_create h ?_)))
          exact ends_bind (ends_report (ends_bind (ends_remember (ends_pure (hnew _)))))

theorem calm_settle {me : Agent} {done : Agent → Session → Prop} (h : s.access.Calm)
    (hheld : s.table.holds me = true) (hdone : done me { s with table := s.table.overwrite me }) :
    (settle me).Ends s done failed := by
  unfold settle
  refine ends_bind (calm_update h ?_)
  rw [hheld]
  exact ends_bind (calm_use h (ends_pure hdone))

/-- A pulse comes through or breaks down if the table can be read. -/
theorem calm_pulseSession {t : AgentTable} {access : Access} {agents : List Agent}
    (h : access.Calm) (hord : t.Ordered) (hlist : t.list l.role = .ok agents) (now : Int) :
    (l.pulseSession now).Ends { link := l, access, table := t } (fun _ _ => True)
      (fun e _ => e = .overflow) := by
  unfold pulseSession
  refine ends_bind (calm_begin h (ends_bind (calm_list h hlist ?_)))
  rw [List.partition_eq_filter_filter]
  refine ends_bind (calm_reclaim h (fun ns => ends_bind (calm_register h ?_)) (fun _ => rfl))
  intro own live t₁ henrols selfId ns'
  refine ends_bind (ends_decide (fun reported ns'' _ => ?_))
  -- The record that is written has been read or inserted in this session.
  have hdecides := henrols.decides (hord.delete _) (list_reclaimed hord hlist now)
  have hown := (AgentTable.mem_list_iff hdecides.list_eq).mp hdecides.own_mem
  refine calm_settle h (AgentTable.holds_iff.mpr ⟨own.row, ?_, ?_⟩) trivial
  · rw [(leased_fields _ _ _ _).1, (decision_fields _ _ _).1]
    exact hown.1
  · rw [(leased_fields _ _ _ _).2, (decision_fields _ _ _).2]
    rfl

/-- A renewal comes through if the table can be read and the own record is live. -/
theorem calm_renewSession {t : AgentTable} {access : Access} {agents : List Agent} {me : Agent}
    (h : access.Calm) (hord : t.Ordered) (hlist : t.list l.role = .ok agents)
    (hself : l.selfId = some me.id) (hheld : t.Holds me) (hrole : me.role = l.role) (now : Int)
    (hlive : me.isExpired now = false) :
    (l.renewSession now).Ends { link := l, access, table := t } (fun renewed _ => renewed = true)
      (fun _ _ => False) := by
  unfold renewSession
  rw [hself]
  refine ends_bind (calm_begin h (ends_bind (calm_list h hlist ?_)))
  -- The record that is found under the id is the own one.
  have hfind : agents.find? (·.id = me.id) = some me := by
    have hmem : me ∈ agents := (AgentTable.mem_list_iff hlist).mpr ⟨hheld, hrole⟩
    cases hfound : agents.find? (·.id = me.id) with
    | none =>
        have := List.find?_eq_none.mp hfound me hmem
        exact absurd (decide_eq_true rfl) this
    | some a =>
        have hid := List.find?_some hfound
        have ha := (AgentTable.mem_list_iff hlist).mp (List.mem_of_find?_eq_some hfound)
        rw [AgentTable.Holds.eq_of_id_eq hord ha.1 hheld (of_decide_eq_true hid)]
  rw [hfind]
  dsimp only
  rw [hlive]
  have hholds : t.holds { me with expiration := l.leaseEnd now } = true :=
    AgentTable.holds_iff.mpr ⟨me.row, hheld, rfl⟩
  refine ends_bind (calm_update h ?_)
  rw [hholds]
  exact ends_bind (calm_use h (ends_pure rfl))

end Sessions

variable {l : Link} {access : Access} {t : AgentTable} {agents : List Agent}

/-- A pulse that cannot fail has written the own record, unless it has broken down. -/
theorem pulse_calm (moment : Moment) (h : access.Calm) (hord : t.Ordered)
    (hlist : t.list l.role = .ok agents) (hwhole : (l.pulse moment access t).broken = false) :
    ∃ me reported, l.Writes moment.wall t me (l.pulse moment access t).table ∧
      (l.pulse moment access t).link = ({ l with
        selfId := some me.id, conflictReported := reported } : Link).afterPulse moment.started me ∧
      (l.selfId = some me.id ∨ me.id = t.nextId) := by
  rcases l.pulse_cases moment access t with ⟨me, reported, hwrites, hlink, hids⟩ |
    ⟨_, _, _, hlink, _⟩ | ⟨hbroken, _⟩
  · exact ⟨me, reported, hwrites, hlink, hids.imp (fun h => h.2.1) (fun h => h.2)⟩
  · -- The link has counted a failure, but the session has not failed.
    exfalso
    have hcount := congrArg failures hlink
    rcases Session.run_of_ends (fun _ => true) access
      (calm_pulseSession h hord hlist moment.wall) with
      ⟨me, s, _, hrun⟩ | ⟨_, s, rfl, hrun⟩
    · unfold pulse at hcount
      simp only [hrun, afterPulse, afterFailure] at hcount
      omega
    · simp only [pulse, hrun] at hwhole
      cases hwhole
  · exact absurd hbroken (Bool.eq_false_iff.mp hwhole)

/-- A renewal that cannot fail has written the lease. -/
theorem renew_calm (moment : Moment) (h : access.Calm) (hord : t.Ordered)
    (hlist : t.list l.role = .ok agents) {me : Agent} (hself : l.selfId = some me.id)
    (hheld : t.Holds me) (hrole : me.role = l.role) (hlive : me.isExpired moment.wall = false)
    (hstate : l.snapshot.state ≠ .suspended) :
    l.Renews moment.wall t (l.renew moment access t).table ∧
      (l.renew moment access t).link = { l with
        failures := 0
        snapshot.leaseDeadline := some (moment.started + l.expiration) } := by
  have hends := (ends_renewSession l moment.wall t access).and
    (calm_renewSession h hord hlist hself hheld hrole moment.wall hlive)
  rcases Session.run_of_ends id access hends with
    ⟨renewed, s, ⟨⟨hlink, _, hrenews⟩, rfl⟩, hrun⟩ | ⟨e, s, ⟨_, hfalse⟩, _⟩
  · simp only [renew, if_neg hstate, hrun, hlink, id, if_true]
    exact ⟨hrenews rfl, trivial⟩
  · exact hfalse.elim

end Link

end OutboxCluster
