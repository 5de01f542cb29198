import OutboxCluster.Proofs.Atomic
import OutboxCluster.Proofs.Frame
import OutboxCluster.Proofs.Report

/-!
# Leases at the Ends of the Clock

A wall clock can be set to any of its readings at any time. So a pulse may come at one end
of the clock and find a lease that was written at the other, and what it computes from the
two need not be a reading any more.

It computes three things. The end of a new lease stops at the largest reading, however long
the lease is to last, and is therefore never before the reading that it is counted from.
Whether a lease is over is a comparison. Both are what they would be if readings had no
bounds.

The third is for how long the lease of a peer has been over. It is reported when the record
of the peer is removed, and it is a plain difference. A peer whose lease has been over for
longer than the largest reading stops the pulse there, before anything was written, and
every later one like it as long as the record is in the table. What was reported until then
are true ages, of the first of the peers that are over.

## Main definitions

* `ages`: For how long leases were over, as it was reported.
* `AgentTable.overdue`: For how long they are over.

## Theorems

* `leaseEnd_eq_min`, `isReading_lease`: The end of a lease.
* `overdue_of_list`, `overflows_iff`: The ages of what a pulse finds, and where they stop it.
* `pulse_outcome`: What a pulse writes and reports.
* `leases_within_clock`: What pulses and renewals compute at any reading.
* `ancient_age_overflows`: An age that no pulse can report.
-/

namespace OutboxCluster

/-- The record that a notice reports as removed, and for how long its lease was over. -/
def Notice.age? : Notice → Option (Int × Int)
  | .reclaiming peer ago => some (peer, ago)
  | _ => none

/-- The records that were reported as removed, and for how long their leases were over. -/
def ages (ns : List Notice) : List (Int × Int) := ns.filterMap Notice.age?

theorem ages_append (ns ms : List Notice) : ages (ns ++ ms) = ages ns ++ ages ms :=
  List.filterMap_append

theorem ages_eq_nil {ns : List Notice} (h : ∀ n ∈ ns, n.age? = none) : ages ns = [] :=
  List.filterMap_eq_nil_iff.mpr h

theorem Session.Adds.ages_eq {s s' : Session} (h : s.Adds (·.age? = none) s') :
    ages s'.notices = ages s.notices := by
  rcases h with ⟨ns, hns, hnone⟩
  rw [hns, ages_append, ages_eq_nil hnone, List.append_nil]

namespace AgentTable

/-- The peers of a role whose lease is over, and for how long it is. -/
def overdue (t : AgentTable) (role : String) (selfId : Option Int) (now : Int) :
    List (Int × Int) :=
  (t.rows.filter fun p =>
    (decide (p.2.expiration < now) && selfId != some p.1) && p.2.role == role).map
      fun p => (p.1, now - p.2.expiration)

theorem mem_overdue {t : AgentTable} {role : String} {selfId : Option Int} {now : Int}
    {p : Int × Int} : p ∈ t.overdue role selfId now ↔
      ∃ row, (p.1, row) ∈ t.rows ∧ row.role = role ∧ selfId ≠ some p.1 ∧
        row.expiration < now ∧ p.2 = now - row.expiration := by
  simp only [overdue, List.mem_map, List.mem_filter, Bool.and_eq_true, decide_eq_true_eq,
    bne_iff_ne, beq_iff_eq]
  constructor
  · rintro ⟨q, ⟨hq, ⟨hover, hself⟩, hrole⟩, rfl⟩
    exact ⟨q.2, hq, hrole, hself, hover, rfl⟩
  · rintro ⟨row, hrow, hrole, hself, hover, hage⟩
    exact ⟨(p.1, row), ⟨hrow, ⟨hover, hself⟩, hrole⟩, Prod.ext rfl hage.symm⟩

end AgentTable

namespace Link

open SessionM

/-- The end of a lease, without the bounds of the clock in between. -/
theorem leaseEnd_eq_min (l : Link) {now : Int} (hnow : IsReading now) :
    l.leaseEnd now = min (now + min (l.expiration : Int) maxReading) maxReading := by
  unfold leaseEnd saturate
  simp only [IsReading, minReading, maxReading] at *
  omega

theorem isReading_lease (l : Link) {now : Int} (hnow : IsReading now) :
    let lease := min (now + min (l.expiration : Int) maxReading) maxReading
    IsReading lease ∧ now ≤ lease := by
  simp only [IsReading, minReading, maxReading] at *
  omega

variable {l : Link} {moment : Moment} {access : Access} {t : AgentTable}

/-- The peers that are over are those of the list, in its order. -/
theorem overdue_of_list {now : Int} {agents : List Agent} (hlist : t.list l.role = .ok agents) :
    t.overdue l.role l.selfId now =
      ((agents.filter (·.isExpired now)).filter (l.selfId != some ·.id)).map
        fun a => (a.id, now - a.expiration) := by
  rw [AgentTable.overdue, ← List.filter_filter, AgentTable.list_eq_ok_iff.mp hlist,
    List.filter_map, List.map_map, List.filter_filter]
  simp only [Function.comp_def, Agent.row, Agent.isExpired, Bool.and_comm]

/-- What is reported of records that go are the ages of the peers among them, and these are
    readings. -/
theorem ages_announced {now : Int} {as : List Agent} {ns : List Notice}
    (h : l.Announces now as ns) :
    ages ns = (as.filter (l.selfId != some ·.id)).map (fun a => (a.id, now - a.expiration)) ∧
      ∀ p ∈ ages ns, IsReading p.2 := by
  induction as generalizing ns with
  | nil =>
      rw [Announces, List.map_nil, eq_comm, List.map_eq_nil_iff] at h
      rw [h]
      exact ⟨rfl, List.forall_mem_nil _⟩
  | cons a as ih =>
      cases ns with
      | nil => cases h
      | cons n ns =>
          rw [Announces, List.map_cons, List.map_cons, List.cons.injEq] at h
          rcases h with ⟨hnotice, hrest⟩
          have hthis := ih hrest
          unfold reclaimNotice? reading? at hnotice
          by_cases hself : l.selfId = some a.id
          · -- The own record is removed as well, but not reported as that of a peer.
            rw [if_pos hself, Option.some.injEq] at hnotice
            have hother : (l.selfId != some a.id) = false := by rw [hself, bne_self_eq_false]
            rw [List.filter_cons, if_neg (Bool.not_eq_true _ ▸ hother), ← hnotice]
            exact hthis
          · rw [if_neg hself, Option.map_eq_some_iff] at hnotice
            rcases hnotice with ⟨age, hage, rfl⟩
            rcases Option.ite_none_right_eq_some.mp hage with ⟨hreading, hage⟩
            rw [Option.some.injEq] at hage
            have hpeer : (l.selfId != some a.id) = true := bne_iff_ne.mpr hself
            rw [List.filter_cons, if_pos hpeer, List.map_cons, ← hthis.1, hage]
            exact ⟨rfl, List.forall_mem_cons.mpr ⟨hage ▸ hreading, hthis.2⟩⟩

/-- What a pulse has reported of ages when it ends: the first of them, and each is a
    reading. -/
def Ages (l : Link) (now : Int) (t : AgentTable) (ns : List Notice) : Prop :=
  ages ns <+: t.overdue l.role l.selfId now ∧ ∀ p ∈ ages ns, IsReading p.2

/-- A pulse that comes through has reported all ages, and one that stops has reported those
    to which it has come. -/
theorem ends_pulseSession_ages (l : Link) (now : Int) (t : AgentTable) (access : Access) :
    (l.pulseSession now).Ends { link := l, access, table := t }
      (fun _ s => ages s.notices = t.overdue l.role l.selfId now ∧
        ∀ p ∈ ages s.notices, IsReading p.2)
      (fun _ s => l.Ages now t s.notices) := by
  have hnone : l.Ages now t [] := ⟨List.nil_prefix, List.forall_mem_nil _⟩
  unfold pulseSession
  refine ends_bind (ends_begin (fun _ => ends_bind (ends_list (fun _ agents hlist => ?_)
    (fun _ _ => hnone))) (fun _ _ => hnone))
  rw [List.partition_eq_filter_filter]
  have hall : ∀ ns, l.Announces now (agents.filter (·.isExpired now)) ns →
      ages ns = t.overdue l.role l.selfId now ∧ ∀ p ∈ ages ns, IsReading p.2 := by
    intro ns hns
    rw [overdue_of_list hlist]
    exact ages_announced hns
  have hwhole : ∀ ns, l.Announces now (agents.filter (·.isExpired now)) ns → l.Ages now t ns :=
    fun ns hns => ⟨(hall ns hns).1 ▸ List.prefix_rfl, (hall ns hns).2⟩
  refine ends_bind (ends_reclaim_announced (fun _ ns hns => ?_) (fun _ _ ns hns => hwhole ns hns)
    (fun told a rest ns heq hns _ => ?_))
  · -- What is reported from here on are no ages.
    refine Reports.ends (p := (·.age? = none)) ?_ (fun _ s' hs' => ?_) (fun _ s' hs' => ?_)
    · exact (l.reports_register now _ (fun _ => rfl) fun _ => rfl).bind fun enrolled =>
        (l.reports_decide enrolled.1 enrolled.2 fun _ _ => rfl).bind fun _ => reports_settle _
    · rw [hs'.ages_eq]
      exact hall ns hns
    · rw [Ages, hs'.ages_eq]
      exact hwhole ns hns
  · -- It stops at a record, and has reported those before it.
    refine ⟨?_, (ages_announced hns).2⟩
    rw [overdue_of_list hlist, heq, List.filter_append, List.map_append]
    exact (ages_announced hns).1 ▸ List.prefix_append _ _

/-- A pulse breaks down where it has read the table, if the lease of a peer has been over for
    longer than the largest reading. -/
theorem overflows_iff {now : Int} : l.Overflows now access t ↔
    access.fails .begin = false ∧ access.fails .list = false ∧
    (∃ agents, t.list l.role = .ok agents) ∧
    ∃ p ∈ t.overdue l.role l.selfId now, maxReading < p.2 := by
  have hage : ∀ a : Agent, ¬ l.Tells now a ↔ a.isExpired now = true ∧
      l.selfId ≠ some a.id ∧ maxReading < now - a.expiration := by
    intro a
    rw [Tells, Classical.not_imp, not_or, Agent.isExpired, decide_eq_true_eq]
    refine and_congr_right fun hover => and_congr_right fun _ => ?_
    simp only [IsReading, minReading, maxReading]
    omega
  constructor
  · rintro ⟨hbegin, hlist, agents, hagents, a, ha, htells⟩
    rcases (hage a).mp htells with ⟨hover, hself, hlong⟩
    refine ⟨hbegin, hlist, ⟨agents, hagents⟩, (a.id, now - a.expiration), ?_, hlong⟩
    rw [overdue_of_list hagents]
    exact List.mem_map_of_mem (List.mem_filter.mpr
      ⟨List.mem_filter.mpr ⟨ha, hover⟩, bne_iff_ne.mpr hself⟩)
  · rintro ⟨hbegin, hlist, ⟨agents, hagents⟩, p, hp, hlong⟩
    rw [overdue_of_list hagents] at hp
    rcases List.mem_map.mp hp with ⟨a, ha, rfl⟩
    rcases List.mem_filter.mp ha with ⟨ha, hself⟩
    rcases List.mem_filter.mp ha with ⟨ha, hover⟩
    exact ⟨hbegin, hlist, agents, hagents, a, ha,
      (hage a).mpr ⟨hover, bne_iff_ne.mp hself, hlong⟩⟩

theorem ages_pulseNotices (l : Link) (me : Agent) : ages (l.pulseNotices me) = [] := by
  unfold pulseNotices
  rw [ages_append]
  split <;> split <;> rfl

theorem ages_failureNotices (l : Link) (now : Nat) : ages (l.failureNotices now) = [] := by
  unfold failureNotices
  split <;> rfl

/-- A pulse has written the own record and has reported all ages, or it has written nothing. -/
theorem pulse_outcome (l : Link) (moment : Moment) (access : Access) (t : AgentTable) :
    l.Ages moment.wall t (l.pulse moment access t).notices ∧
    ((∃ me, l.pulseResult moment access t = .ok me ∧
      l.Writes moment.wall t me (l.pulse moment access t).table ∧
      ages (l.pulse moment access t).notices = t.overdue l.role l.selfId moment.wall) ∨
    ((l.pulseResult moment access t).isOk = false ∧ (l.pulse moment access t).table = t)) := by
  rcases Session.run_of_ends (fun _ => true) access
    ((ends_pulseSession l moment.wall t access).and
      (ends_pulseSession_ages l moment.wall t access)) with
    ⟨me, s, ⟨⟨hwrites, _, _⟩, hages, hreadings⟩, hrun⟩ | ⟨e | _, s, ⟨_, hages⟩, hrun⟩
  · simp only [Ages, pulseResult, pulse, hrun, if_true, ages_append, ages_pulseNotices,
      List.append_nil]
    exact ⟨⟨hages ▸ List.prefix_rfl, hreadings⟩, Or.inl ⟨me, rfl, hwrites, hages⟩⟩
  · rw [Ages] at hages ⊢
    simp only [pulseResult, pulse, hrun, failed, ages_append, ages_failureNotices,
      List.append_nil]
    exact ⟨hages, Or.inr ⟨rfl, trivial⟩⟩
  · simp only [pulseResult, pulse, hrun]
    exact ⟨hages, Or.inr ⟨rfl, trivial⟩⟩

/-- A renewal reports no ages. -/
theorem ages_renew : ages (l.renew moment access t).notices = [] := by
  have hsession : (l.renewSession moment.wall).Reports (·.age? = none) :=
    l.reports_renewSession moment.wall
  have hrun := ages_eq_nil (reports_run hsession id l access t)
  unfold renew
  split
  · rfl
  · split
    · rename_i a heq
      rw [heq] at hrun
      exact hrun
    · rename_i a heq
      rw [heq] at hrun
      simp only [ages_append, hrun]
      rfl
    · rename_i e a heq
      rw [heq] at hrun
      simp only [failed, ages_append, hrun, ages_failureNotices, List.append_nil]

theorem Writes.expiration_eq {now : Int} {me : Agent} {t' : AgentTable}
    (h : l.Writes now t me t') : me.expiration = l.leaseEnd now := by
  rcases h with ⟨_, _, _, _, _, _, hme, _⟩
  rw [hme]
  rfl

/-- A renewal that comes through has written the own record. -/
theorem renews_of_result (hstate : l.snapshot.state ≠ .suspended)
    (h : l.renewResult moment access t = .ok true) :
    l.Renews moment.wall t (l.renew moment access t).table := by
  rcases Session.run_of_ends id access (ends_renewSession l moment.wall t access) with
    ⟨renewed, s, ⟨_, _, hrenews⟩, hrun⟩ | ⟨e, s, _, hrun⟩
  · rw [renewResult, hrun, Except.ok.injEq] at h
    simp only [renew, if_neg hstate, hrun, h, id, if_true]
    exact hrenews h
  · rw [renewResult, hrun] at h
    cases h

/-- Whatever the reading, whatever the leases in the table and however long a lease is to
    last: the end of a lease that is written is the one that there would be without bounds,
    or the largest reading, so a lease that has just been written is not over. A pulse that
    comes through removes the records whose leases are over, and no others, and reports the
    ages of the peers among them. Renewals report no ages and do not break down. A pulse
    breaks down exactly if it has read the table and the lease of a peer has been over for
    longer than the largest reading. Then it leaves the table, the ids and the link as they
    were, and has reported the first of the ages; every age that is reported is a reading. -/
theorem leases_within_clock (l : Link) (moment : Moment) (access : Access) {t : AgentTable}
    (hord : t.Ordered) (hwall : IsReading moment.wall) :
    let lease := min (moment.wall + min (l.expiration : Int) maxReading) maxReading
    let overdue := t.overdue l.role l.selfId moment.wall
    (IsReading lease ∧ moment.wall ≤ lease) ∧
    (∀ p ∈ (l.pulse moment access t).table.rows, p ∈ t.rows ∨ p.2.expiration = lease) ∧
    (∀ p ∈ (l.renew moment access t).table.rows, p ∈ t.rows ∨ p.2.expiration = lease) ∧
    (∀ me, l.pulseResult moment access t = .ok me →
      (l.pulse moment access t).table.Holds me ∧ me.expiration = lease ∧
      me.isExpired moment.wall = false ∧
      (∀ p ∈ t.rows, p.1 ≠ me.id → (p ∈ (l.pulse moment access t).table.rows ↔
        ¬ (p.2.role = l.role ∧ p.2.expiration < moment.wall))) ∧
      ages (l.pulse moment access t).notices = overdue) ∧
    (l.snapshot.state ≠ .suspended → l.renewResult moment access t = .ok true →
      ∃ me, l.selfId = some me.id ∧ t.Holds me ∧ moment.wall ≤ me.expiration ∧
        (l.renew moment access t).table.Holds { me with expiration := lease }) ∧
    ages (l.renew moment access t).notices = [] ∧ (l.renew moment access t).broken = false ∧
    ((l.pulse moment access t).broken = true ↔
      access.fails .begin = false ∧ access.fails .list = false ∧
      (∃ agents, t.list l.role = .ok agents) ∧ ∃ p ∈ overdue, maxReading < p.2) ∧
    ((l.pulse moment access t).broken = true →
      (l.pulse moment access t).table = t ∧ (l.pulse moment access t).link = l) ∧
    ages (l.pulse moment access t).notices <+: overdue ∧
    (∀ p ∈ ages (l.pulse moment access t).notices, IsReading p.2) ∧
    ∀ p ∈ overdue, 0 < p.2 := by
  intro lease overdue
  have hlease : l.leaseEnd moment.wall = lease := l.leaseEnd_eq_min hwall
  have hbounds := l.isReading_lease hwall
  rcases l.pulse_outcome moment access t with ⟨⟨hbegins, hreadings⟩, hpulse⟩
  refine ⟨hbounds, fun p hp => ?_, fun p hp => ?_, fun me hme => ?_, fun hstate hrenewed => ?_,
    ages_renew, broken_renew l moment access t, ?_, pulse_of_broken, hbegins, hreadings,
    fun p hp => ?_⟩
  -- A pulse that does not come through leaves the table as it was.
  · rcases hpulse with ⟨me, _, hwrites, _⟩ | ⟨_, htable⟩
    · rcases (hwrites.mem_rows hord).mp hp with rfl | ⟨_, hbefore, _⟩
      · exact Or.inr (hwrites.expiration_eq.trans hlease)
      · exact Or.inl hbefore
    · exact Or.inl (htable ▸ hp)
  · rcases (l.renew_cases moment access t).2 with
      ⟨_, htable, _⟩ | ⟨_, hrenews, _⟩ | ⟨_, htable, _⟩
    · exact Or.inl (htable ▸ hp)
    · rcases hrenews.mem_rows hord with ⟨me, _, _, hrows⟩
      rcases (hrows p).mp hp with rfl | ⟨hbefore, _⟩
      · exact Or.inr hlease
      · exact Or.inl hbefore
    · exact Or.inl (htable ▸ hp)
  · rcases hpulse with ⟨me', hme', hwrites, hages⟩ | ⟨hfailed, _⟩
    · rw [hme', Except.ok.injEq] at hme
      subst hme
      have hend := hwrites.expiration_eq.trans hlease
      refine ⟨hwrites.holds hord, hend, ?_, fun p hp hid => ?_, hages⟩
      · rw [Agent.isExpired, hend]
        exact decide_eq_false (Int.not_lt.mpr hbounds.2)
      · rw [hwrites.mem_rows hord]
        constructor
        · rintro (rfl | ⟨_, _, hlive⟩)
          · exact absurd rfl hid
          · exact hlive
        · exact fun hlive => Or.inr ⟨hid, hp, hlive⟩
    · rw [hme] at hfailed
      cases hfailed
  · rcases renews_of_result hstate hrenewed with ⟨me, hself, hheld, _, hlive, htable⟩
    rw [Agent.isExpired, decide_eq_false_iff_not, Int.not_lt] at hlive
    have hholds : t.holds { me with expiration := lease } = true :=
      AgentTable.holds_iff.mpr ⟨me.row, hheld, rfl⟩
    rw [hlease] at htable
    refine ⟨me, hself, hheld, hlive, ?_⟩
    rw [htable]
    exact (AgentTable.mem_overwrite hord hholds).mpr (Or.inl rfl)
  · exact broken_pulse_iff.trans ((through_pulse_iff hord).2.trans overflows_iff)
  · rcases AgentTable.mem_overdue.mp hp with ⟨row, _, _, _, hover, hage⟩
    omega

/-- Two peers are over, and a lease that is to last for ever ends with the clock. -/
theorem leases_within_clock_mingled :
    let l := { enlisted (some 1) with expiration := 18446744073709551615 }
    (∃ me, l.pulseResult ⟨600, 600, 600⟩ {} mingled = .ok me ∧ me.expiration = maxReading ∧
      me.isExpired 600 = false) ∧
    ages (l.pulse ⟨600, 600, 600⟩ {} mingled).notices = [(2, 100), (4, 101)] := by
  intro l
  have hord : mingled.Ordered := ⟨by decide, by decide⟩
  have hresult : (l.pulseResult ⟨600, 600, 600⟩ {} mingled).isOk = true := by decide +kernel
  have hoverdue : mingled.overdue l.role l.selfId 600 = [(2, 100), (4, 101)] := by decide
  have hlaw := leases_within_clock l ⟨600, 600, 600⟩ {} hord (by decide)
  cases hme : l.pulseResult ⟨600, 600, 600⟩ {} mingled with
  | error e =>
      rw [hme] at hresult
      cases hresult
  | ok me =>
      rcases hlaw.2.2.2.1 me hme with ⟨_, hend, hlive, _, hages⟩
      dsimp only at hages
      rw [hoverdue] at hages
      exact ⟨⟨me, rfl, hend, hlive⟩, hages⟩

end Link

namespace Roster

/-- A lease was written that ends two seconds before the origin of the clock, and then the
    clock is set to its largest reading. The age is two seconds more than that, so the pulse
    that comes across the record breaks down. -/
theorem ancient_age_overflows :
    let m := ({ wall := ⟨-5000⟩ } : Roster).run
      [.join "a" "r" none 3000, .pulse "a", .setClock maxReading, .join "b" "r" none 3000]
    IsReading m.wall.now ∧ m.agents.rows.map (fun p => (p.1, p.2.expiration)) = [(1, -2000)] ∧
    m.agents.overdue "r" none m.wall.now = [(1, 9223372036854777807)] ∧
    m.breaksDown (.pulse "b") = true ∧ (m.step (.pulse "b")).1.agents.rows = m.agents.rows := by
  decide +kernel

end Roster

end OutboxCluster
