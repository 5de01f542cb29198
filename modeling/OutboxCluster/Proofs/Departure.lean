import OutboxCluster.Proofs.Suspension
import Mathlib.Data.List.Induction

/-!
# What is Left after a Departure

A link that has left is not to hand on events, until a pulse takes it back into the
cluster. Leaving is what publishes this, and it does so only where the link has an own id:
without one there is no record to remove, and the attempt ends before it has touched the
snapshot.

Own id and snapshot mostly go together. A pulse that comes through sets both, and one that
fails leaves an agent running only together with the id it had. There is one exception. If
the store reports that it has found no record to update, the pulse forgets the id and then
fails like any other, so until its lease is over the agent runs on without one. A link in
this state does not stop when it leaves. It still says that it runs, its deadline stands,
and a renewal cannot but suspend it, but nobody asks for one after it has left.

The state is what carries the proofs. Of all that can happen to a link only a pulse that
comes through makes it running (`running_cases`), so one that has stopped stays so until
then.

## Main definitions

* `Roster.pulsesThrough`: Whether an event is a pulse of a link that comes through.
* `Link.Unowned`: The agent runs and has no own id.

## Theorems

* `ownId_of_pulse`: What a pulse leaves of the own id.
* `running_cases`: How a link can be running after an event.
* `exists_pulse_of_unowned`: Where a running agent has lost its id.
* `leaving_ends_processing`: Whether a link that has left can process events.
* `unowned_leaves_running`: One that can.
-/

namespace OutboxCluster

namespace Link

variable {l : Link} {moment : Moment} {access : Access} {t : AgentTable}

/-- The agent runs and has no own id. -/
def Unowned (l : Link) : Prop := l.selfId = none ∧ l.snapshot.state = .running

instance : Decidable l.Unowned := inferInstanceAs (Decidable (_ ∧ _))

/-- A pulse that comes through has an own id in the end. One that fails ends without one
    only if there was none, or if the update found no record. -/
theorem ownId_of_pulse (hord : t.Ordered) :
    ((l.pulseResult moment access t).isOk = true →
      (l.pulse moment access t).link.selfId ≠ none) ∧
    ((l.pulseResult moment access t).isOk = false →
      (l.pulse moment access t).link.selfId = none →
      l.selfId = none ∨ access.fails .updateLost = true) := by
  constructor
  · intro hthrough
    rcases Session.run_of_ends (fun _ => true) access
      (ends_pulseSession l moment.wall t access) with
      ⟨me, s, ⟨_, ⟨reported, hlink⟩, _⟩, hrun⟩ | ⟨e, s, _, hrun⟩
    · simp only [pulse, hrun, hlink, afterPulse]
      exact Option.some_ne_none me.id
    · rw [pulseResult, hrun] at hthrough
      cases hthrough
  · intro hstopped
    -- That only a lost update takes the id away is known of the exact law alone.
    rcases Session.run_of_ends (fun _ => true) access
      (exact_pulseSession l moment.wall hord access) with
      ⟨me, s, _, hrun⟩ | ⟨e | _, s, hstops, hrun⟩
    · rw [pulseResult, hrun] at hstopped
      cases hstopped
    · simp only [pulse, hrun, failed, afterFailure]
      exact hstops.2.2
    · have hbroken : l.pulseResult moment access t = .error .overflow := by
        rw [pulseResult, hrun]
      rw [(pulse_of_broken (broken_pulse_iff.mpr hbroken)).2]
      exact Or.inl

/-- A pulse that does not come through makes no agent running. -/
theorem running_of_stopped_pulse (h : (l.pulseResult moment access t).isOk = false)
    (hruns : (l.pulse moment access t).link.snapshot.state = .running) :
    l.snapshot.state = .running := by
  cases hresult : l.pulseResult moment access t with
  | ok me =>
      rw [hresult] at h
      cases h
  | error e =>
      cases e with
      | failure e =>
          rw [(spoils_of_failed_pulse hresult).snapshot_eq] at hruns
          dsimp only at hruns
          split at hruns
          · cases hruns
          · exact hruns
      | overflow => rwa [(pulse_of_broken (broken_pulse_iff.mpr hresult)).2] at hruns

/-- A failure makes no agent running. -/
theorem running_of_afterFailure {now : Nat} (h : (l.afterFailure now).snapshot.state = .running) :
    l.snapshot.state = .running := by
  rcases l.afterFailure_snapshot now with hsame | hsuspended
  · exact hsame ▸ h
  · rw [hsuspended] at h
    cases h

/-- A link with an own id, or one that does not run, stops when it leaves. Any other one
    goes on as it is. -/
theorem canProcess_leave (now : Nat) : (l.leave access t).link.snapshot.canProcess now = true ↔
    l.selfId = none ∧ l.snapshot.canProcess now = true := by
  rcases (l.leave_cases access t).2 with ⟨hself, _, hlink⟩ | ⟨id, hself, _, hlink⟩
  · rw [hlink, hself]
    exact (and_iff_right rfl).symm
  · rw [hlink, hself]
    exact iff_of_false Bool.false_ne_true (fun h => nomatch h.1)

end Link

namespace Roster

/-- Whether the event is a pulse of the link of this name and comes through. -/
def pulsesThrough (name : String) (m : Roster) : Event → Bool
  | .pulse name' waited => name' == name && (m.find? name).any fun member =>
      (member.link.pulseResult (m.moment waited) member.access m.agents).isOk
  | _ => false

section Steps

variable {m : Roster} {name : String} {e : Event} {member' : Member}

/-- A link that is running after its pulse has an own id if the pulse came through. Otherwise it
    was running, and if it has no own id any more then the pulse found no record to update. -/
theorem running_cases_of_pulse {waited : Waited} {member : Member} (hord : m.agents.Ordered)
    (hfind : m.find? name = some member)
    (hfind' : (m.step (.pulse name waited)).1.find? name = some member')
    (hruns : member'.link.snapshot.state = .running) :
    (pulsesThrough name m (.pulse name waited) = true ∧ member'.link.selfId ≠ none) ∨
    ((member.link.pulseResult (m.moment waited) member.access m.agents).isOk = false ∧
      member.link.snapshot.state = .running ∧
      (member'.link.selfId = none →
        member.link.selfId = none ∨ member.access.fails .updateLost = true)) := by
  rcases find?_pulse hfind waited with ⟨access, hafter⟩
  have hmember := Option.some.inj (hafter.symm.trans hfind')
  subst hmember
  have hown := @Link.ownId_of_pulse member.link (m.moment waited) member.access _ hord
  cases hresult : (member.link.pulseResult (m.moment waited) member.access m.agents).isOk with
  | true =>
      refine Or.inl ⟨?_, hown.1 hresult⟩
      simp only [pulsesThrough, hfind, hresult, Option.any_some, beq_self_eq_true, Bool.and_self]
  | false =>
      exact Or.inr ⟨rfl, Link.running_of_stopped_pulse hresult hruns, hown.2 hresult⟩

/-- No other event makes a link run, or takes its own id from it. -/
theorem running_before (hpulse : ¬ ∃ waited member, e = .pulse name waited ∧
      m.find? name = some member) (hfind' : (m.step e).1.find? name = some member')
    (hruns : member'.link.snapshot.state = .running) :
    ∃ member, m.find? name = some member ∧ member.link.snapshot.state = .running ∧
      (member'.link.selfId = none → member.link.selfId = none) := by
  have hsame := fun hfind : m.find? name = some member' =>
    (⟨member', hfind, hruns, id⟩ : ∃ member, m.find? name = some member ∧
      member.link.snapshot.state = .running ∧
      (member'.link.selfId = none → member.link.selfId = none))
  have hout := outcome_step m e
  generalize registrations (m.step e).2 = ids at hout
  generalize (m.step e).1 = m' at hout hfind'
  -- But for pulses, no event lets a link run that did not, or takes its id away.
  cases hout with
  | absent | advance | setClock | put | delete => exact hsame hfind'
  | join name' role configured expiration =>
      rcases cases_setMember hfind' with ⟨rfl, rfl⟩ | ⟨_, hfind⟩
      · cases hruns
      · exact hsame hfind
  | crash name' =>
      rw [find?_crash] at hfind'
      split at hfind'
      · cases hfind'
      · exact hsame hfind'
  | wrote hfind₁ _ _ | stopped hfind₁ _ =>
      rcases cases_setMember hfind' with ⟨rfl, _⟩ | ⟨_, hfind⟩
      · exact absurd ⟨_, _, rfl, hfind₁⟩ hpulse
      · exact hsame hfind
  | renewed hfind₁ _ | kept _ hfind₁ =>
      rcases cases_setMember hfind' with ⟨rfl, rfl⟩ | ⟨_, hfind⟩
      · exact ⟨_, hfind₁, hruns, id⟩
      · exact hsame hfind
  | refused hfind₁ hlink =>
      rcases cases_setMember hfind' with ⟨rfl, rfl⟩ | ⟨_, hfind⟩
      · rcases hlink with rfl | rfl
        · cases hruns
        · exact ⟨_, hfind₁, Link.running_of_afterFailure hruns, id⟩
      · exact hsame hfind
  | left hfind₁ _ _ =>
      rcases cases_setMember hfind' with ⟨rfl, rfl⟩ | ⟨_, hfind⟩
      · cases hruns
      · exact hsame hfind

/-- How a link can be running after an event. A pulse has come through, and then it has an
    own id; or it was running, and if it has no own id any more then its pulse found no
    record to update. -/
theorem running_cases (hord : m.agents.Ordered) (hfind' : (m.step e).1.find? name = some member')
    (hruns : member'.link.snapshot.state = .running) :
    (pulsesThrough name m e = true ∧ member'.link.selfId ≠ none) ∨
    (∃ member, m.find? name = some member ∧ member.link.snapshot.state = .running ∧
      (member'.link.selfId = none → member.link.selfId = none ∨
        ∃ waited, e = .pulse name waited ∧
          (member.link.pulseResult (m.moment waited) member.access m.agents).isOk = false ∧
          member.access.fails .updateLost = true)) := by
  -- The outcomes do not say why a pulse stopped, so those of the link come first.
  by_cases hpulse : ∃ waited member, e = .pulse name waited ∧ m.find? name = some member
  · rcases hpulse with ⟨waited, member, rfl, hfind⟩
    rcases running_cases_of_pulse hord hfind hfind' hruns with hthrough | ⟨hresult, hran, hown⟩
    · exact Or.inl hthrough
    · exact Or.inr ⟨member, hfind, hran, fun hnone =>
        (hown hnone).imp_right fun hlost => ⟨waited, rfl, hresult, hlost⟩⟩
  · rcases running_before hpulse hfind' hruns with ⟨member, hfind, hran, hown⟩
    exact Or.inr ⟨member, hfind, hran, fun hnone => Or.inl (hown hnone)⟩

/-- What a departure does to its link. -/
theorem find?_leave {member : Member} (hfind : m.find? name = some member) :
    ∃ access, (m.step (.leave name)).1.find? name = some
      { link := (member.link.leave member.access m.agents).link, access } := by
  simp only [step, attempt, hfind]
  exact ⟨_, find?_setMember_self⟩

end Steps

section Runs

variable {m : Roster} {name : String}

/-- A link that does not run does not until a pulse of it comes through, whoever takes its
    place. -/
theorem stays_stopped {events : List Event} {member' : Member} (hord : m.agents.Ordered)
    (hquiet : Along (fun m e => pulsesThrough name m e = false) m events)
    (hstopped : ∀ member, m.find? name = some member → member.link.snapshot.state ≠ .running)
    (hfind' : (m.run events).find? name = some member') :
    member'.link.snapshot.state ≠ .running := by
  induction events generalizing m with
  | nil => exact hstopped member' hfind'
  | cons e events ih =>
      refine ih (ordered_step hord e) hquiet.2 (fun member hfind hruns => ?_) hfind'
      rcases running_cases hord hfind hruns with ⟨hthrough, _⟩ | ⟨before, hbefore, hran, _⟩
      · exact Bool.noConfusion (hquiet.1.symm.trans hthrough)
      · exact hstopped before hbefore hran

/-- An agent that runs without an own id has lost it in a pulse which found no record to
    update. -/
theorem exists_pulse_of_unowned (wall : WallClock) (events : List Event) {member : Member}
    (hfind : (({ wall } : Roster).run events).find? name = some member)
    (hunowned : member.link.Unowned) :
    ∃ pre waited post last id, events = pre ++ .pulse name waited :: post ∧
      (({ wall } : Roster).run pre).find? name = some last ∧ last.link.selfId = some id ∧
      last.link.snapshot.state = .running ∧ last.access.fails .updateLost = true ∧
      let m := ({ wall } : Roster).run pre
      (last.link.pulseResult (m.moment waited) last.access m.agents).isOk = false := by
  induction events using List.reverseRecOn generalizing member with
  | nil => cases hfind
  | append_singleton events e ih =>
      have hord : (({ wall } : Roster).run events).agents.Ordered :=
        ordered_run Table.ordered_empty _
      rw [run, List.foldl_append] at hfind
      rcases running_cases hord hfind hunowned.2 with
        ⟨_, hown⟩ | ⟨before, hbefore, hran, hlost⟩
      · exact absurd hunowned.1 hown
      -- If the id was gone before, the pulse is an earlier one; otherwise it is this event.
      · cases hself : before.link.selfId with
        | none =>
            rcases ih hbefore ⟨hself, hran⟩ with ⟨pre, waited, post, last, id, rfl, hlaw⟩
            exact ⟨pre, waited, post ++ [e], last, id, by rw [List.append_assoc, List.cons_append],
              hlaw⟩
        | some id =>
            rw [hself] at hlost
            rcases (hlost hunowned.1).resolve_left (Option.some_ne_none id) with
              ⟨waited, rfl, hstopped, hfails⟩
            exact ⟨events, waited, [], before, id, rfl, hbefore, hself, hran, hfails, hstopped⟩

end Runs

/-- A link that leaves can process events right afterwards only if it has no own id and
    could before. Any other link can process events at no instant until a pulse of it comes
    through, whatever happens. A running link without an own id has lost it in a pulse that
    failed because the store found no record to update. -/
theorem leaving_ends_processing (wall : WallClock) (before after : List Event) (name : String)
    {member : Member} (hfind : (({ wall } : Roster).run before).find? name = some member)
    (hquiet : Along (fun m e => pulsesThrough name m e = false)
      (({ wall } : Roster).run (before ++ [.leave name])) after) :
    (∃ left, (({ wall } : Roster).run (before ++ [.leave name])).find? name = some left ∧
      ∀ now, left.link.snapshot.canProcess now = true ↔
        member.link.selfId = none ∧ member.link.snapshot.canProcess now = true) ∧
    (¬ member.link.Unowned → ∀ member',
      (({ wall } : Roster).run (before ++ .leave name :: after)).find? name = some member' →
      ∀ now, member'.link.snapshot.canProcess now = false) ∧
    (member.link.Unowned →
      ∃ pre waited post last id, before = pre ++ .pulse name waited :: post ∧
        (({ wall } : Roster).run pre).find? name = some last ∧ last.link.selfId = some id ∧
        last.link.snapshot.state = .running ∧ last.access.fails .updateLost = true ∧
        let m := ({ wall } : Roster).run pre
        (last.link.pulseResult (m.moment waited) last.access m.agents).isOk = false) := by
  have hleave : ({ wall } : Roster).run (before ++ [.leave name]) =
      ((({ wall } : Roster).run before).step (.leave name)).1 := by
    rw [run, List.foldl_append]
    rfl
  rcases find?_leave hfind with ⟨access, hleft⟩
  rw [hleave] at hquiet ⊢
  refine ⟨⟨_, hleft, Link.canProcess_leave⟩, fun howned member' hfind' now => ?_,
    exists_pulse_of_unowned wall before hfind⟩
  have hord : ((({ wall } : Roster).run before).step (.leave name)).1.agents.Ordered :=
    ordered_step (ordered_run Table.ordered_empty _) _
  have hstopped := stays_stopped hord hquiet (fun left hfindLeft hruns => ?_)
    (by rwa [run, List.foldl_append] at hfind')
  · rw [← Bool.not_eq_true, Snapshot.canProcess_iff]
    exact fun hcan => hstopped hcan.1
  · rw [Option.some.inj (hfindLeft.symm.trans hleft)] at hruns
    -- A link that runs after it has left had no id to leave with.
    rcases (member.link.leave_cases member.access _).2 with ⟨hself, _, hlink⟩ | ⟨_, _, _, hlink⟩
    · rw [hlink] at hruns
      exact howned ⟨hself, hruns⟩
    · rw [hlink] at hruns
      cases hruns

/-- A running agent is told once that its record is not there. -/
def forgetting : List Event :=
  [.join "a" "r" none 3000, .pulse "a", .pulse "a", .arm "a" .updateLost 1 .database, .pulse "a"]

/-- The agent has left, and can process events as before. -/
theorem unowned_leaves_running :
    ((({ wall := ⟨1000000⟩ } : Roster).run (forgetting ++ [.leave "a"])).find? "a").map
      (fun member => (member.link.selfId, member.link.snapshot.state,
        member.link.snapshot.canProcess 0, member.link.snapshot.canProcess 2999)) =
      some (none, .running, true, true) := by
  decide +kernel

/-- The same agent leaves with its id, is refused a session at its next pulse, and cannot
    process events any more. -/
theorem leaving_ends_processing_refused :
    ∃ member, (({ wall := ⟨1000000⟩ } : Roster).run
        (forgetting.take 3 ++ [.leave "a", .arm "a" .begin 1 .closed, .pulse "a"])).find? "a" =
          some member ∧
      ∀ now, member.link.snapshot.canProcess now = false := by
  have hbefore : ((({ wall := ⟨1000000⟩ } : Roster).run (forgetting.take 3)).find? "a").map
      (fun member => decide member.link.Unowned) = some false := by decide +kernel
  rcases Option.map_eq_some_iff.mp hbefore with ⟨member, hfind, howned⟩
  have hafter : ((({ wall := ⟨1000000⟩ } : Roster).run
      (forgetting.take 3 ++ [.leave "a", .arm "a" .begin 1 .closed, .pulse "a"])).find?
        "a").isSome = true := by decide +kernel
  rcases Option.isSome_iff_exists.mp hafter with ⟨member', hfind'⟩
  have hlaw := leaving_ends_processing ⟨1000000⟩ (forgetting.take 3)
    [.arm "a" .begin 1 .closed, .pulse "a"] "a" hfind (by decide +kernel)
  exact ⟨member', hfind', hlaw.2.1 (of_decide_eq_false howned) member' hfind'⟩

end Roster

end OutboxCluster
