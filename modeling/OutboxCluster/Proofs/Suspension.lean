import OutboxCluster.Proofs.Frame

/-!
# The Way out of a Suspension

A suspended agent has stopped because its lease may be lost, and only a pulse lets it go
on. Where its record is gone it registers again and has to wait like a new one. But a
suspension is a matter of the agent alone and is not in the table: the deadline is over
by the monotonic clock, or a renewal was refused, and the record may be there still, live,
running and with the right shard. The decision of a pulse looks at the record and not at
what the agent has published. So such an agent runs again at once, and has not published
in between that it starts.

`Resumes` says of an agent and a table that this is so: the own record is live, its shard
is that of its position, and every live peer leaves it. A pulse of a suspended agent that
comes through publishes that it runs in this case, and in all others that it starts.

## Main definitions

* `Link.Resumes`: The own record is live and has its shard to itself.

## Theorems

* `decideDynamic_state_iff`: When a dynamic agent runs.
* `Writes.running_iff`: When a pulse that came through says so.
* `state_pulse_of_suspended`: What a suspended agent publishes.
* `suspension_ends_at_pulse`: How a suspension ends in a run.
* `lapsing_runs_at_once`: A suspended agent that does not start over.
-/

namespace OutboxCluster

/-- A dynamic agent runs if it has the shard of its position and every peer leaves it. -/
theorem decideDynamic_state_iff (me : Agent) (ids : List Int) (peers : List Agent) :
    ((decideDynamic me ids peers).state = .running ↔
      me.assignment = dynamicAssignment ids me.id ∧
        ∀ peer ∈ peers, peer.leaves (dynamicAssignment ids me.id) = true) ∧
    (decideDynamic me ids peers).state ≠ .suspended := by
  unfold decideDynamic
  dsimp only
  by_cases htarget : me.assignment = dynamicAssignment ids me.id
  · rw [if_neg (not_not_intro htarget)]
    by_cases hpeers : (peers.all (·.leaves (dynamicAssignment ids me.id))) = true
    · rw [if_pos hpeers]
      exact ⟨iff_of_true rfl ⟨htarget, List.all_eq_true.mp hpeers⟩, AgentState.noConfusion⟩
    · rw [if_neg hpeers]
      exact ⟨iff_of_false AgentState.noConfusion (fun h => hpeers (List.all_eq_true.mpr h.2)),
        AgentState.noConfusion⟩
  · rw [if_pos htarget]
    exact ⟨iff_of_false AgentState.noConfusion (fun h => htarget h.1), AgentState.noConfusion⟩

namespace Link

/-- The own record is live, it has the shard of its position among the live ones, and
    every live peer leaves it. -/
def Resumes (l : Link) (now : Int) (t : AgentTable) : Prop :=
  ∃ agents me, t.list l.role = .ok agents ∧ me ∈ agents.filter (! ·.isExpired now) ∧
    l.selfId = some me.id ∧
    me.assignment = dynamicAssignment ((agents.filter (! ·.isExpired now)).map (·.id)) me.id ∧
    ∀ peer ∈ agents.filter (! ·.isExpired now), peer.id ≠ me.id → peer.leaves me.assignment = true

variable {l : Link} {now : Int} {t t' : AgentTable} {me : Agent}

/-- A dynamic agent that came through runs exactly if its record was in the table with
    what it takes. One that has registered has no shard yet. -/
theorem Writes.running_iff (hord : t.Ordered) (h : l.Writes now t me t')
    (hconf : l.configured = none) (hlen : t'.rows.length < 4294967296) :
    (me.state = .running ↔ l.Resumes now t) ∧ me.state ≠ .suspended := by
  rcases h with ⟨agents, own, live, t₁, hlist, henrols, hme, _, ht'⟩
  have hlive := list_reclaimed hord hlist now
  have hdecides := henrols.decides (hord.delete _) hlive
  have hstate : me.state =
      (decideDynamic own (live.map (·.id)) (live.filter (·.id ≠ own.id))).state := by
    rw [hme, leased, decision, hconf]
  rw [hstate]
  have hlaw := decideDynamic_state_iff own (live.map (·.id)) (live.filter (·.id ≠ own.id))
  refine ⟨hlaw.1.trans ?_, hlaw.2⟩
  cases henrols with
  | own hmem hself =>
      constructor
      · rintro ⟨htarget, hpeers⟩
        refine ⟨agents, own, hlist, hmem, hself, htarget, fun peer hpeer hne => ?_⟩
        rw [htarget]
        exact hpeers peer (List.mem_filter.mpr ⟨hpeer, decide_eq_true hne⟩)
      · rintro ⟨agents', me', hlist', hmem', hself', htarget, hpeers⟩
        have hagents : agents = agents' := Except.ok.inj (hlist.symm.trans hlist')
        subst hagents
        -- The own id names one record.
        have hsame : me' = own := AgentTable.Holds.eq_of_id_eq (hord.delete _)
          ((AgentTable.mem_list_iff hlive).mp hmem').1 ((AgentTable.mem_list_iff hlive).mp hmem).1
          (Option.some.inj (hself'.symm.trans hself))
        subst hsame
        refine ⟨htarget, fun peer hpeer => ?_⟩
        rw [← htarget]
        exact hpeers peer (List.mem_filter.mp hpeer).1
          (of_decide_eq_true (List.mem_filter.mp hpeer).2)
  | new hmissing =>
      refine iff_of_false (fun hruns => ?_) ?_
      · -- With that few members there is a shard for the new record, and it has none.
        have hshort : (((agents.filter (! ·.isExpired now)) ++
            [l.created now (t.delete ((agents.filter (·.isExpired now)).map (·.id)))]).map
              (·.id)).length < 4294967296 := by
          have hle := AgentTable.length_list_le hdecides.list_eq
          rw [ht', AgentTable.overwrite, Table.modify, List.length_map] at hlen
          rw [List.length_map]
          omega
        rcases exists_dynamicAssignment (List.mem_map_of_mem hdecides.own_mem) hshort with ⟨s, hs⟩
        have hnone : (l.created now (t.delete
            ((agents.filter (·.isExpired now)).map (·.id)))).assignment = none := by
          simp only [created, newRecord, hconf, Option.map_none, Agent.assignment]
        rw [hs, hnone] at hruns
        cases hruns.1
      · rintro ⟨agents', me', hlist', hmem', hself', _⟩
        have hagents : agents = agents' := Except.ok.inj (hlist.symm.trans hlist')
        subst hagents
        exact hmissing me' hmem' hself'

/-- A pulse that does not come through, whether it fails or breaks down, does not end a
    suspension. -/
theorem suspended_of_stopped_pulse (hsuspended : l.snapshot.state = .suspended) {moment : Moment}
    {access : Access} (h : (l.pulseResult moment access t).isOk = false) :
    (l.pulse moment access t).link.snapshot.state = .suspended := by
  cases hresult : l.pulseResult moment access t with
  | ok me =>
      rw [hresult] at h
      cases h
  | error e =>
      cases e with
      | failure e =>
          rw [(spoils_of_failed_pulse hresult).snapshot_eq]
          simp only [hsuspended, ite_self]
      | overflow => rw [(pulse_of_broken (broken_pulse_iff.mpr hresult)).2, hsuspended]

/-- A suspended dynamic agent stays suspended if its pulse fails. Otherwise it runs if its
    record has been there with its shard, and starts if not. -/
theorem state_pulse_of_suspended (hord : t.Ordered) (hconf : l.configured = none)
    (hsuspended : l.snapshot.state = .suspended) (moment : Moment) (access : Access)
    (hlen : (l.pulse moment access t).table.rows.length < 4294967296) :
    ((l.pulse moment access t).link.snapshot.state = .suspended ↔
      (l.pulseResult moment access t).isOk = false) ∧
    ((l.pulse moment access t).link.snapshot.state = .running ↔
      (l.pulseResult moment access t).isOk = true ∧ l.Resumes moment.wall t) := by
  rcases Session.run_of_ends (fun _ => true) access (ends_pulseSession l moment.wall t access) with
    ⟨me, s, ⟨hwrites, _, _⟩, hrun⟩ | ⟨e, s, _, hrun⟩
  · have hstate : (l.pulse moment access t).link.snapshot.state = me.state := by
      simp only [pulse, hrun, afterPulse]
    have htable : (l.pulse moment access t).table = s.table := by
      simp only [pulse, hrun, if_true]
    rw [htable] at hlen
    rw [hstate, pulseResult, hrun]
    have hlaw := hwrites.running_iff hord hconf hlen
    exact ⟨iff_of_false hlaw.2 Bool.noConfusion, hlaw.1.trans (iff_and_self.mpr fun _ => rfl)⟩
  · have hfailed : (l.pulseResult moment access t).isOk = false := by
      rw [pulseResult, hrun]
      rfl
    rw [suspended_of_stopped_pulse hsuspended hfailed, hfailed]
    exact ⟨iff_of_true rfl rfl, iff_of_false AgentState.noConfusion (fun h => Bool.noConfusion h.1)⟩

end Link

namespace Roster

/-- A rule that is kept all along is kept by an event in the middle. -/
theorem Along.middle {rule : Roster → Event → Prop} {m : Roster} {pre post : List Event}
    {e : Event} (h : Along rule m (pre ++ e :: post)) : rule (m.run pre) e := by
  induction pre generalizing m with
  | nil => exact h.1
  | cons e' pre ih => exact ih h.2

section Stays

variable {m : Roster} {name : String}

/-- A link that has not joined in the meantime has been there, and takes part as before. -/
theorem find?_of_run {events : List Event} {member' : Member}
    (hstays : ∀ e ∈ events, ∀ role configured expiration,
      e ≠ .join name role configured expiration)
    (hfind : (m.run events).find? name = some member') :
    ∃ member, m.find? name = some member ∧
      member'.link.configured = member.link.configured := by
  induction events generalizing m with
  | nil => exact ⟨member', hfind, rfl⟩
  | cons e events ih =>
      rcases ih (fun e' he' => hstays e' (List.mem_cons_of_mem _ he')) hfind with
        ⟨between, hbetween, hconf⟩
      rcases (outcome_step m e).member_cases hbetween with
        ⟨member, hmember, _, hconf', _⟩ | ⟨role, configured, expiration, he, _⟩
      · exact ⟨member, hmember, hconf.trans hconf'⟩
      · exact absurd he (hstays e List.mem_cons_self role configured expiration)

/-- What a pulse does to its link. -/
theorem find?_pulse {member : Member} (hfind : m.find? name = some member) (waited : Waited) :
    ∃ access, (m.step (.pulse name waited)).1.find? name = some
      { link := (member.link.pulse (m.moment waited) member.access m.agents).link, access } := by
  simp only [step, attempt, hfind]
  exact ⟨_, find?_setMember_self⟩

/-- Of a suspended link only a pulse that comes through changes the state. -/
theorem pulse_of_awake {e : Event} {member member' : Member}
    (hfind : m.find? name = some member) (hsuspended : member.link.snapshot.state = .suspended)
    (hstays : ∀ role configured expiration, e ≠ .join name role configured expiration)
    (hfind' : (m.step e).1.find? name = some member')
    (hawake : member'.link.snapshot.state ≠ .suspended) :
    ∃ waited, e = .pulse name waited ∧
      (member.link.pulseResult (m.moment waited) member.access m.agents).isOk = true := by
  have hother : m.find? name ≠ some member' := by
    intro hsame
    rw [hfind, Option.some.injEq] at hsame
    exact hawake (hsame ▸ hsuspended)
  have hfailed : ∀ (l : Link) (now : Nat), l.snapshot.state = .suspended →
      (l.afterFailure now).snapshot.state = .suspended := by
    intro l now hl
    rw [Link.snapshot_afterFailure]
    simp only [hl, ite_self]
  have hout := outcome_step m e
  generalize registrations (m.step e).2 = ids at hout
  generalize hafter : (m.step e).1 = m' at hout hfind'
  cases hout with
  | absent | advance | setClock | put | delete => exact absurd hfind' hother
  | join name' role configured expiration =>
      rcases cases_setMember hfind' with ⟨rfl, _⟩ | ⟨_, hsame⟩
      · exact absurd rfl (hstays role configured expiration)
      · exact absurd hsame hother
  | crash name' =>
      rw [find?_crash] at hfind'
      split at hfind'
      · cases hfind'
      · exact absurd hfind' hother
  | @wrote name' waited member₁ _ _ _ _ _ hfind₁ _ _ =>
      rcases cases_setMember hfind' with ⟨rfl, _⟩ | ⟨_, hsame⟩
      · refine ⟨waited, rfl, ?_⟩
        -- A pulse that failed would have left the link suspended.
        rw [← Bool.not_eq_false]
        intro hstopped
        rcases find?_pulse hfind waited with ⟨access, hpulsed⟩
        rw [hafter] at hpulsed
        have hmember := Option.some.inj (hpulsed.symm.trans hfind')
        rw [← hmember] at hawake
        exact hawake (Link.suspended_of_stopped_pulse hsuspended hstopped)
      · exact absurd hsame hother
  | stopped hfind₁ _ =>
      rcases cases_setMember hfind' with ⟨rfl, rfl⟩ | ⟨_, hsame⟩
      · rw [hfind, Option.some.injEq] at hfind₁
        subst hfind₁
        exact absurd (hfailed _ _ hsuspended) hawake
      · exact absurd hsame hother
  | renewed hfind₁ _ | kept _ hfind₁ =>
      rcases cases_setMember hfind' with ⟨rfl, rfl⟩ | ⟨_, hsame⟩
      · rw [hfind, Option.some.injEq] at hfind₁
        subst hfind₁
        exact absurd hsuspended hawake
      · exact absurd hsame hother
  | refused hfind₁ hlink =>
      rcases cases_setMember hfind' with ⟨rfl, rfl⟩ | ⟨_, hsame⟩
      · rw [hfind, Option.some.injEq] at hfind₁
        subst hfind₁
        rcases hlink with rfl | rfl
        · exact absurd rfl hawake
        · exact absurd (hfailed _ _ hsuspended) hawake
      · exact absurd hsame hother
  | left hfind₁ _ _ =>
      rcases cases_setMember hfind' with ⟨rfl, rfl⟩ | ⟨_, hsame⟩
      · exact absurd rfl hawake
      · exact absurd hsame hother

/-- A link that is no longer suspended has made a pulse while it was, which came
    through. -/
theorem exists_pulse_of_awake {events : List Event} {member member' : Member}
    (hfind : m.find? name = some member) (hsuspended : member.link.snapshot.state = .suspended)
    (hstays : ∀ e ∈ events, ∀ role configured expiration,
      e ≠ .join name role configured expiration)
    (hfind' : (m.run events).find? name = some member')
    (hawake : member'.link.snapshot.state ≠ .suspended) :
    ∃ pre waited post asleep, events = pre ++ .pulse name waited :: post ∧
      (m.run pre).find? name = some asleep ∧ asleep.link.snapshot.state = .suspended ∧
      (asleep.link.pulseResult ((m.run pre).moment waited) asleep.access
        (m.run pre).agents).isOk = true := by
  induction events generalizing m member with
  | nil =>
      have hsame : member = member' := Option.some.inj (hfind.symm.trans hfind')
      exact absurd (hsame ▸ hsuspended) hawake
  | cons e events ih =>
      have hstays' := fun e' he' => hstays e' (List.mem_cons_of_mem _ he')
      rcases find?_of_run hstays' hfind' with ⟨between, hbetween, _⟩
      by_cases hstill : between.link.snapshot.state = .suspended
      · rcases ih hbetween hstill hstays' hfind' with ⟨pre, waited, post, asleep, rfl, hlaw⟩
        exact ⟨e :: pre, waited, post, asleep, rfl, hlaw⟩
      · rcases pulse_of_awake hfind hsuspended (hstays e List.mem_cons_self) hbetween hstill with
          ⟨waited, rfl, hthrough⟩
        exact ⟨[], waited, events, member, rfl, hfind, hsuspended, hthrough⟩

end Stays

/-- Of a dynamic link that is suspended, in whatever run, only a pulse that comes through
    ends the suspension. It publishes that the agent runs exactly if the own record is live,
    has its shard, and every live peer leaves it, and otherwise that the agent starts. -/
theorem suspension_ends_at_pulse (wall : WallClock) (before after : List Event) (name : String)
    {member : Member}
    (hlen : Along (fun m e => (m.step e).1.agents.rows.length < 4294967296) { wall }
      (before ++ after))
    (hfind : (({ wall } : Roster).run before).find? name = some member)
    (hconf : member.link.configured = none)
    (hsuspended : member.link.snapshot.state = .suspended)
    (hstays : ∀ e ∈ after, ∀ role configured expiration,
      e ≠ .join name role configured expiration) :
    (∀ pre waited post asleep, after = pre ++ .pulse name waited :: post →
      (({ wall } : Roster).run (before ++ pre)).find? name = some asleep →
      asleep.link.snapshot.state = .suspended →
      let m := ({ wall } : Roster).run (before ++ pre)
      ∃ awake, (m.step (.pulse name waited)).1.find? name = some awake ∧
        (awake.link.snapshot.state = .suspended ↔
          (asleep.link.pulseResult (m.moment waited) asleep.access m.agents).isOk = false) ∧
        (awake.link.snapshot.state = .running ↔
          (asleep.link.pulseResult (m.moment waited) asleep.access m.agents).isOk = true ∧
            asleep.link.Resumes (m.moment waited).wall m.agents)) ∧
    (∀ member', (({ wall } : Roster).run (before ++ after)).find? name = some member' →
      member'.link.snapshot.state ≠ .suspended →
      ∃ pre waited post asleep, after = pre ++ .pulse name waited :: post ∧
        (({ wall } : Roster).run (before ++ pre)).find? name = some asleep ∧
        asleep.link.snapshot.state = .suspended ∧
        let m := ({ wall } : Roster).run (before ++ pre)
        (asleep.link.pulseResult (m.moment waited) asleep.access m.agents).isOk = true) := by
  have hrun : ∀ events, ({ wall } : Roster).run (before ++ events) =
      (({ wall } : Roster).run before).run events := fun events => List.foldl_append
  refine ⟨fun pre waited post asleep hafter hasleep hsleeps => ?_, fun member' hfind' hawake => ?_⟩
  · have hord : (({ wall } : Roster).run (before ++ pre)).agents.Ordered :=
      ordered_run Table.ordered_empty _
    rw [hafter, ← List.append_assoc] at hlen
    have hshort := hlen.middle
    -- The link takes part as it did when it was found suspended.
    have hdynamic : asleep.link.configured = none := by
      have hstays' : ∀ e ∈ pre, ∀ role configured expiration,
          e ≠ .join name role configured expiration := by
        intro e he
        exact hstays e (hafter ▸ List.mem_append_left _ he)
      rw [hrun] at hasleep
      rcases find?_of_run hstays' hasleep with ⟨first, hfirst, hsame⟩
      rw [hfind, Option.some.injEq] at hfirst
      rw [hsame, ← hfirst, hconf]
    rcases find?_pulse hasleep waited with ⟨access, hawake⟩
    refine ⟨_, hawake, Link.state_pulse_of_suspended hord hdynamic hsleeps _ _ ?_⟩
    simp only [step, attempt, hasleep] at hshort
    exact hshort
  · rw [hrun] at hfind'
    rcases exists_pulse_of_awake hfind hsuspended hstays hfind' hawake with
      ⟨pre, waited, post, asleep, hafter, hlaw⟩
    rw [← hrun] at hlaw
    exact ⟨pre, waited, post, asleep, hafter, hlaw⟩

/-- The deadline of a running agent is over by the monotonic clock when its session
    cannot be opened, and its record is still live by the wall clock. -/
def lapsing : List Event :=
  [.join "a" "r" none 3000, .pulse "a", .pulse "a", .advance 3000 3000, .arm "a" .begin 1 .closed,
    .pulse "a"]

/-- The agent is suspended, and with its next pulse it runs. -/
theorem lapsing_runs_at_once :
    ((({ wall := ⟨1000000⟩ } : Roster).run lapsing).find? "a").map
      (·.link.snapshot.state) = some .suspended ∧
    ((({ wall := ⟨1000000⟩ } : Roster).run (lapsing ++ [.pulse "a"])).find? "a").map
      (fun member => (member.link.snapshot.state, member.link.snapshot.canProcess 3000)) =
        some (.running, true) := by
  decide +kernel

/-- The same, when the record is over by the wall clock as well. -/
def overslept : List Event :=
  [.join "a" "r" none 3000, .pulse "a", .pulse "a", .advance 3001 3001, .arm "a" .begin 1 .closed,
    .pulse "a"]

/-- The first agent has found its record as it was, and the second one has found none. -/
theorem suspension_ends_at_pulse_overslept :
    (∃ asleep, (({ wall := ⟨1000000⟩ } : Roster).run lapsing).find? "a" = some asleep ∧
      asleep.link.Resumes 1003000 (({ wall := ⟨1000000⟩ } : Roster).run lapsing).agents) ∧
    ∃ asleep, (({ wall := ⟨1000000⟩ } : Roster).run overslept).find? "a" = some asleep ∧
      ¬ asleep.link.Resumes 1003001 (({ wall := ⟨1000000⟩ } : Roster).run overslept).agents := by
  have hlen : ∀ events ∈ [lapsing, overslept],
      Along (fun m e => (m.step e).1.agents.rows.length < 4294967296)
        { wall := ⟨1000000⟩ } (events ++ [.pulse "a"]) := by decide +kernel
  have hmember : ∀ events ∈ [lapsing, overslept],
      ((({ wall := ⟨1000000⟩ } : Roster).run events).find? "a").map
        (fun member => (member.link.configured, member.link.snapshot.state)) =
          some (none, .suspended) := by decide +kernel
  have hlaw : ∀ events ∈ [lapsing, overslept], ∃ asleep,
      (({ wall := ⟨1000000⟩ } : Roster).run events).find? "a" = some asleep ∧ ∃ awake,
        (({ wall := ⟨1000000⟩ } : Roster).run (events ++ [.pulse "a"])).find? "a" = some awake ∧
        (awake.link.snapshot.state ≠ .suspended → (awake.link.snapshot.state = .running ↔
          asleep.link.Resumes ((({ wall := ⟨1000000⟩ } : Roster).run events).moment {}).wall
            (({ wall := ⟨1000000⟩ } : Roster).run events).agents)) := by
    intro events hevents
    rcases Option.map_eq_some_iff.mp (hmember events hevents) with ⟨asleep, hfind, hfields⟩
    rw [Prod.mk.injEq] at hfields
    have hboth := suspension_ends_at_pulse ⟨1000000⟩ events [.pulse "a"] "a" (hlen events hevents)
      hfind hfields.1 hfields.2 (by
        intro e he role configured expiration
        rw [List.mem_singleton] at he
        rw [he]
        exact Event.noConfusion)
    rw [← List.append_nil events] at hfind
    rcases hboth.1 [] {} [] asleep rfl hfind hfields.2 with ⟨awake, hawake, hstopped, hruns⟩
    rw [List.append_nil] at hawake hstopped hruns hfind
    refine ⟨asleep, hfind, awake, ?_, fun hstate => ?_⟩
    · rw [run, List.foldl_append]
      exact hawake
    · rw [hruns, and_iff_right]
      rw [← Bool.not_eq_false]
      exact fun hfailed => hstate (hstopped.mpr hfailed)
  have hstates : ∀ p ∈ [(lapsing, AgentState.running), (overslept, .starting)],
      ((({ wall := ⟨1000000⟩ } : Roster).run (p.1 ++ [.pulse "a"])).find? "a").map
        (·.link.snapshot.state) = some p.2 := by decide +kernel
  refine ⟨?_, ?_⟩
  · rcases hlaw lapsing (List.mem_cons_self) with ⟨asleep, hfind, awake, hawake, hiff⟩
    have hstate := hstates (lapsing, .running) List.mem_cons_self
    rw [hawake, Option.map_some, Option.some.injEq] at hstate
    exact ⟨asleep, hfind, (hiff (by rw [hstate]; decide)).mp hstate⟩
  · rcases hlaw overslept (List.mem_cons_of_mem _ List.mem_cons_self) with
      ⟨asleep, hfind, awake, hawake, hiff⟩
    have hstate := hstates (overslept, .starting) (List.mem_cons_of_mem _ List.mem_cons_self)
    rw [hawake, Option.map_some, Option.some.injEq] at hstate
    refine ⟨asleep, hfind, fun hresumes => ?_⟩
    have hruns := (hiff (by rw [hstate]; decide)).mpr hresumes
    rw [hstate] at hruns
    cases hruns

end Roster

end OutboxCluster
