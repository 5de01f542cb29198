import OutboxCluster.Proofs.Lease

/-!
# Attempts that Come Through

A session that fails is reported, and a pulse that breaks down is the last thing that is
heard of whoever made it, so whether the attempts of a run have come through can be seen
from outside. This module reads it back: a pulse that reports no failure and has not
broken down has written the own record, and a renewal that reports none has written the
lease, unless there was nothing to renew.

## Main definitions

* `Notice.isFailure`: A report that a session has failed.
* `Roster.Unfailing`: An event that reports none, and in which no link breaks down.

## Theorems

* `pulse_through`, `renew_through`: What an attempt has done that reports no failure.
* `commits_of_unfailing`: What such an event has inserted is there afterwards.
-/

namespace OutboxCluster

/-- Whether a session is reported to have failed. -/
def Notice.isFailure : Notice → Bool
  | .pulseFailed _ | .leaveFailed _ => true
  | _ => false

namespace Link

variable {l : Link} {moment : Moment} {access : Access} {t : AgentTable}

/-- The notices of a failed attempt begin with the failure. -/
theorem not_unfailing_of_failed {a : Attempt} {now : Nat}
    (h : ∀ n ∈ (failed a now).notices, n.isFailure = false) : False := by
  have hmem : Notice.pulseFailed (a.link.failures + 1) ∈ (failed a now).notices :=
    List.mem_append_right _ List.mem_cons_self
  exact Bool.noConfusion (h _ hmem)

/-- A pulse that reports no failure and does not break down has written the own record. -/
theorem pulse_through (h : ∀ n ∈ (l.pulse moment access t).notices, n.isFailure = false)
    (hwhole : (l.pulse moment access t).broken = false) :
    ∃ me reported, l.Writes moment.wall t me (l.pulse moment access t).table ∧
      (l.pulse moment access t).link = ({ l with
        selfId := some me.id, conflictReported := reported } : Link).afterPulse moment.started me ∧
      (registrations (l.pulse moment access t).notices = [] ∧ l.selfId = some me.id ∨
        registrations (l.pulse moment access t).notices = [t.nextId] ∧ me.id = t.nextId) := by
  rcases l.pulse_cases moment access t with ⟨me, reported, hwrites, hlink, hids⟩ |
    ⟨_, _, _, hlink, _⟩ | ⟨hbroken, _⟩
  · exact ⟨me, reported, hwrites, hlink, hids.imp (fun h => ⟨h.1, h.2.1⟩) id⟩
  rotate_left
  · exact Bool.noConfusion (hwhole.symm.trans hbroken)
  · -- The link has counted a failure, so the session has failed and that is reported.
    exfalso
    have hcount := congrArg failures hlink
    have hresult := hwhole
    rw [← Bool.not_eq_true, broken_pulse, Session.broken_run_iff] at hresult
    unfold pulse at h hcount
    rcases hrun : Session.run (l.pulseSession moment.wall) (fun _ => true) l access t with
      ⟨(_ | _) | me, a⟩
    · rw [hrun] at h
      exact not_unfailing_of_failed h
    · exact hresult (by rw [hrun])
    · simp only [hrun, afterPulse, afterFailure] at hcount
      omega

/-- A renewal that reports no failure was not tried, or has written the lease, or has
    found no live record. -/
theorem renew_through (h : ∀ n ∈ (l.renew moment access t).notices, n.isFailure = false) :
    ((l.renew moment access t).table = t ∧ (l.renew moment access t).link = l) ∨
    (l.Renews moment.wall t (l.renew moment access t).table ∧
      (l.renew moment access t).link = { l with
        failures := 0
        snapshot.leaseDeadline := some (moment.started + l.expiration) }) ∨
    (Notice.recordLost ∈ (l.renew moment access t).notices ∧
      (l.renew moment access t).table = t ∧
      (l.renew moment access t).link = { l with snapshot.state := .suspended }) := by
  by_cases hstate : l.snapshot.state = .suspended
  · simp only [renew, if_pos hstate]
    exact Or.inl ⟨trivial, trivial⟩
  · rcases Session.run_of_ends id access (ends_renewSession l moment.wall t access) with
      ⟨renewed, s, ⟨hlink, _, hrenews⟩, hrun⟩ | ⟨e, s, _, hrun⟩
    · cases renewed with
      | true =>
          simp only [renew, if_neg hstate, hrun, hlink, id, if_true]
          exact Or.inr (Or.inl ⟨hrenews rfl, trivial⟩)
      | false =>
          simp only [renew, if_neg hstate, hrun, hlink, id, Bool.false_eq_true, if_false]
          exact Or.inr (Or.inr ⟨List.mem_append_right _ List.mem_cons_self, trivial, trivial⟩)
    -- A session that fails reports it.
    · simp only [renew, if_neg hstate, hrun] at h
      exact (not_unfailing_of_failed h).elim

end Link

namespace Roster

/-- No session is reported to have failed, and no link breaks down. -/
def Unfailing (m : Roster) (e : Event) : Prop :=
  (∀ n ∈ (m.step e).2, n.isFailure = false) ∧ m.breaksDown e = false

instance (m : Roster) (e : Event) : Decidable (Unfailing m e) :=
  inferInstanceAs (Decidable ((∀ n ∈ (m.step e).2, n.isFailure = false) ∧ _))

section Through

variable {m : Roster} {name : String} {waited : Waited} {member : Member}

/-- A pulse that reports no failure and does not break down came through. -/
theorem pulse_through (hfind : m.find? name = some member)
    (h : Unfailing m (.pulse name waited)) : ∃ access me reported t',
      member.link.Writes (m.moment waited).wall m.agents me t' ∧
      (m.step (.pulse name waited)).1 = { m with agents := t' }.setMember name
        { link := ({ member.link with
            selfId := some me.id, conflictReported := reported } : Link).afterPulse
              (m.moment waited).started me
          access } ∧
      (registrations (m.step (.pulse name waited)).2 = [] ∧ member.link.selfId = some me.id ∨
        registrations (m.step (.pulse name waited)).2 = [m.agents.nextId] ∧
          me.id = m.agents.nextId) := by
  simp only [Unfailing, step, attempt, breaksDown, breaksIn, hfind, Option.any_some] at h ⊢
  rcases Link.pulse_through h.1 h.2 with ⟨me, reported, hwrites, hlink, hids⟩
  exact ⟨_, me, reported, _, hwrites, by rw [hlink], hids⟩

/-- A renewal that reports no failure was not tried, or came through, or has found no
    live record. -/
theorem renew_through (hfind : m.find? name = some member)
    (h : Unfailing m (.renew name waited)) : ∃ access,
      (m.step (.renew name waited)).1 = m.setMember name { link := member.link, access } ∨
      (∃ t', member.link.Renews (m.moment waited).wall m.agents t' ∧
        (m.step (.renew name waited)).1 = { m with agents := t' }.setMember name
          { link := { member.link with
              failures := 0
              snapshot.leaseDeadline :=
                some ((m.moment waited).started + member.link.expiration) }
            access }) ∨
      (Notice.recordLost ∈ (m.step (.renew name waited)).2 ∧
        (m.step (.renew name waited)).1 = m.setMember name
          { link := { member.link with snapshot.state := .suspended }, access }) := by
  simp only [Unfailing, step, attempt, hfind] at h ⊢
  refine ⟨(member.link.renew (m.moment waited) member.access m.agents).access, ?_⟩
  rcases Link.renew_through h.1 with ⟨htable, hlink⟩ | ⟨hrenews, hlink⟩ | ⟨hlost, htable, hlink⟩
  · exact Or.inl (by rw [htable, hlink])
  · exact Or.inr (Or.inl ⟨_, hrenews, by rw [hlink]⟩)
  · exact Or.inr (Or.inr ⟨hlost, by rw [htable, hlink]⟩)

end Through

/-- Only a pulse reports a record as inserted. -/
theorem Outcome.ids_eq_nil {m m' : Roster} {e : Event} {ids : List Int} (h : Outcome m e m' ids)
    (he : ∀ name waited, e ≠ .pulse name waited) : ids = [] := by
  cases h with
  | wrote | stopped => exact absurd rfl (he _ _)
  | _ => rfl

/-- What an event has inserted is there afterwards if no session has failed. -/
theorem commits_of_unfailing {m : Roster} {e : Event} (hord : m.agents.Ordered)
    (h : Unfailing m e) : Commits m e := by
  -- Only a pulse registers.
  have hquiet : (∀ name waited, e ≠ .pulse name waited) → Commits m e := by
    intro he id hid
    rw [(outcome_step m e).ids_eq_nil he] at hid
    exact absurd hid List.not_mem_nil
  cases e with
  | pulse name waited =>
      cases hfind : m.find? name with
      | none =>
          intro id hid
          simp only [step, attempt, hfind, registrations_nil] at hid
          exact absurd hid List.not_mem_nil
      | some member =>
          rcases pulse_through hfind h with ⟨access, me, reported, t', hwrites, hstep, hids⟩
          intro id hid
          rw [hstep]
          rcases hids with ⟨hnone, _⟩ | ⟨hnew, hid'⟩
          · rw [hnone] at hid
            exact absurd hid List.not_mem_nil
          · rw [hnew, List.mem_singleton] at hid
            rw [hid, ← hid']
            exact Table.mem_ids_of_mem (hwrites.holds hord)
  | _ => exact hquiet (fun _ _ => Event.noConfusion)

end Roster

end OutboxCluster
