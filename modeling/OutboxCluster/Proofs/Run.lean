import OutboxCluster.Proofs.Pulse
import OutboxCluster.Roster

/-!
# Runs of a Roster

What one event can do to a roster, and how a law of single events becomes a law
of runs.

`Outcome` lists what an event can do: the state afterwards and the ids under
which records were reported as inserted. It forgets what a link reports
otherwise and which plan of failures is left, because no law depends on them, and
it keeps everything else. An invariant of a roster is a case analysis on it, with
the sessions already taken apart.

A run is a list of events, and some laws hold only of runs that keep a rule: a
clock that does not go back, a table that does not grow too large. Such a rule is
one of single events together with the state in which they happen, and `Along`
says that it was kept all along.

## Main definitions

* `Roster.Event.actor?`: The link that an event is about.
* `Roster.Outcome`: What an event can do.
* `Roster.Along`: A rule that is kept by every event of a run.

## Theorems

* `outcome_step`: Every step is one of the outcomes.
* `Outcome.agents_cases`: What an event can do to the table.
* `Along.invariant`: An invariant of the steps is one of the run.
* `find?_setMember`, `find?_crash`: The members after an event.
-/

namespace OutboxCluster

namespace Roster

/-- The link that an event is about, if it is known to the roster already. -/
def Event.actor? : Event → Option String
  | .pulse name _ | .renew name _ | .leave name | .arm name .. | .close name => some name
  | .join .. | .crash _ | .advance .. | .setClock _ | .put _ | .delete _ => none

/-- How long an attempt has waited for its session. -/
def Event.waited : Event → Waited
  | .pulse _ waited | .renew _ waited => waited
  | _ => {}

/-- What an event can do: the state after it, and the ids under which records were
    reported as inserted. -/
inductive Outcome (m : Roster) : Event → Roster → List Int → Prop where
  /-- Nobody has this name. -/
  | absent {e : Event} {name : String} : e.actor? = some name → m.find? name = none →
      Outcome m e m []
  | join (name role : String) (configured : Option Assignment) (expiration : Nat) :
      Outcome m (.join name role configured expiration)
        (m.setMember name { link := { name, role, configured, expiration } }) []
  /-- A pulse came through. -/
  | wrote {name : String} {waited : Waited} {member : Member} {access : Access} {me : Agent}
      {reported : Bool} {ids : List Int} {t' : AgentTable} : m.find? name = some member →
      member.link.Writes (m.moment waited).wall m.agents me t' →
      (ids = [] ∧ member.link.selfId = some me.id ∧ me.id ∈ m.agents.ids ∨
        ids = [m.agents.nextId] ∧ me.id = m.agents.nextId) →
      Outcome m (.pulse name waited) ({ m with agents := t' }.setMember name
        { link := ({ member.link with
            selfId := some me.id, conflictReported := reported } : Link).afterPulse
              (m.moment waited).started me
          access }) ids
  /-- A pulse stopped. -/
  | stopped {name : String} {waited : Waited} {member : Member} {access : Access}
      {selfId : Option Int} {reported : Bool} {ids : List Int} : m.find? name = some member →
      member.link.Remembers m.agents ids selfId →
      Outcome m (.pulse name waited) (m.setMember name
        { link := ({ member.link with
            selfId, conflictReported := reported } : Link).afterFailure m.now
          access }) ids
  /-- A renewal came through. -/
  | renewed {name : String} {waited : Waited} {member : Member} {access : Access}
      {t' : AgentTable} : m.find? name = some member →
      member.link.Renews (m.moment waited).wall m.agents t' →
      Outcome m (.renew name waited) ({ m with agents := t' }.setMember name
        { link := { member.link with
            failures := 0
            snapshot.leaseDeadline := some ((m.moment waited).started + member.link.expiration) }
          access }) []
  /-- A renewal found no live record, or stopped. -/
  | refused {name : String} {waited : Waited} {member : Member} {access : Access} {l : Link} :
      m.find? name = some member →
      l = { member.link with snapshot.state := .suspended } ∨ l = member.link.afterFailure m.now →
      Outcome m (.renew name waited) (m.setMember name { link := l, access }) []
  /-- An agent left, and its record was removed or not. -/
  | left {name : String} {member : Member} {access : Access} {id : Int} {t' : AgentTable} :
      m.find? name = some member → member.link.selfId = some id →
      t' = m.agents.delete [id] ∨ t' = m.agents →
      Outcome m (.leave name) ({ m with agents := t' }.setMember name
        { link := { member.link with selfId := none, snapshot := .departed }, access }) []
  /-- The link made no attempt, or broke down in it, or only its access was changed. -/
  | kept {e : Event} {name : String} {member : Member} {access : Access} :
      e.actor? = some name → m.find? name = some member →
      Outcome m e (m.setMember name { link := member.link, access }) []
  | crash (name : String) :
      Outcome m (.crash name) { m with members := m.members.filter (·.1 != name) } []
  | advance (wallMs : Int) (monoMs : Nat) : Outcome m (.advance wallMs monoMs)
      { m with wall := m.wall.advance wallMs, now := m.now + monoMs } []
  | setClock (now : Int) : Outcome m (.setClock now) { m with wall := m.wall.set now } []
  | put (row : AgentRow) : Outcome m (.put row) { m with agents := m.agents.insert row } []
  | delete (ids : List Int) : Outcome m (.delete ids) { m with agents := m.agents.delete ids } []

/-- A link with another access, where there is one. -/
theorem outcome_modifyAccess {m : Roster} {name : String} {change : Access → Access} (e : Event)
    (hactor : e.actor? = some name) : Outcome m e (m.modifyAccess name change) [] := by
  unfold modifyAccess
  cases hfind : m.find? name with
  | none => exact Outcome.absent hactor hfind
  | some member => exact Outcome.kept hactor hfind

/-- Every step is one of the outcomes. -/
theorem outcome_step (m : Roster) (e : Event) :
    Outcome m e (m.step e).1 (registrations (m.step e).2) := by
  -- An attempt of nobody changes nothing; any other one ends as its own law says.
  cases e with
  | join name role configured expiration => exact Outcome.join _ _ _ _
  | pulse name waited =>
      simp only [step, attempt]
      cases hfind : m.find? name with
      | none => exact Outcome.absent rfl hfind
      | some member =>
          dsimp only
          rcases member.link.pulse_cases (m.moment waited) member.access m.agents with
            ⟨me, reported, hwrites, hlink, hids⟩ | ⟨selfId, reported, htable, hlink, hids⟩ |
            ⟨_, htable, hlink, hids⟩
          · rw [hlink]
            exact Outcome.wrote hfind hwrites hids
          · rw [hlink, htable]
            exact Outcome.stopped hfind hids
          · rw [hlink, htable, hids]
            exact Outcome.kept rfl hfind
  | renew name waited =>
      simp only [step, attempt]
      cases hfind : m.find? name with
      | none => exact Outcome.absent rfl hfind
      | some member =>
          dsimp only
          rcases member.link.renew_cases (m.moment waited) member.access m.agents with
            ⟨hids, ⟨_, htable, hlink⟩ | ⟨_, hrenews, hlink⟩ | ⟨_, htable, hlink⟩⟩
          · rw [hlink, htable, hids]
            exact Outcome.kept rfl hfind
          · rw [hlink, hids]
            exact Outcome.renewed hfind hrenews
          · rw [htable, hids]
            exact Outcome.refused hfind hlink
  | leave name =>
      simp only [step, attempt]
      cases hfind : m.find? name with
      | none => exact Outcome.absent rfl hfind
      | some member =>
          dsimp only
          rcases member.link.leave_cases member.access m.agents with
            ⟨hids, ⟨_, htable, hlink⟩ | ⟨id, hself, htable, hlink⟩⟩
          · rw [hlink, htable, hids]
            exact Outcome.kept rfl hfind
          · rw [hlink, hids]
            exact Outcome.left hfind hself htable
  | crash name => exact Outcome.crash name
  | arm name point times error =>
      simp only [step, registrations_nil]
      exact outcome_modifyAccess _ rfl
  | close name =>
      simp only [step, registrations_nil]
      exact outcome_modifyAccess _ rfl
  | advance wallMs monoMs => exact Outcome.advance wallMs monoMs
  | setClock now => exact Outcome.setClock now
  | put row => exact Outcome.put row
  | delete ids => exact Outcome.delete ids

section Members

variable {m : Roster} {name name' : String}

theorem agents_setMember {member : Member} : (m.setMember name member).agents = m.agents := rfl

/-- Without one name, the others are found as before. -/
theorem find?_filter_ne {members : List (String × Member)} (hname : name' ≠ name) :
    (members.filter (·.1 != name)).find? (·.1 == name') = members.find? (·.1 == name') := by
  rw [List.find?_filter]
  refine congrArg (List.find? · members) (funext fun p => ?_)
  rw [Bool.eq_iff_iff, decide_eq_true_iff, bne_iff_ne, beq_iff_eq]
  exact ⟨fun h => h.2, fun h => ⟨by rw [h]; exact hname, h⟩⟩

/-- The members after one was put in place of that of the same name. -/
theorem find?_setMember {member : Member} : (m.setMember name member).find? name' =
    if name' = name then some member else m.find? name' := by
  simp only [find?, setMember, List.find?_cons]
  by_cases hname : name' = name
  · rw [if_pos hname, beq_iff_eq.mpr hname.symm]
    rfl
  · have hne : (name == name') = false := beq_eq_false_iff_ne.mpr (Ne.symm hname)
    rw [if_neg hname, hne, find?_filter_ne hname]

theorem find?_setMember_self {member : Member} :
    (m.setMember name member).find? name = some member :=
  find?_setMember.trans (if_pos rfl)

/-- A member is the one that was put in place, or it was there before. -/
theorem cases_setMember {member member' : Member}
    (h : (m.setMember name member).find? name' = some member') :
    (name' = name ∧ member' = member) ∨ (name' ≠ name ∧ m.find? name' = some member') := by
  rw [find?_setMember] at h
  by_cases hname : name' = name
  · rw [if_pos hname, Option.some.injEq] at h
    exact Or.inl ⟨hname, h.symm⟩
  · rw [if_neg hname] at h
    exact Or.inr ⟨hname, h⟩

/-- The members after one was forgotten. -/
theorem find?_crash :
    ({ m with members := m.members.filter (·.1 != name) } : Roster).find? name' =
      if name' = name then none else m.find? name' := by
  simp only [find?]
  by_cases hname : name' = name
  · rw [if_pos hname, List.find?_eq_none.mpr, Option.map_none]
    intro p hp heq
    have hne := (List.mem_filter.mp hp).2
    rw [bne_iff_ne] at hne
    rw [beq_iff_eq, hname] at heq
    exact hne heq
  · rw [if_neg hname, find?_filter_ne hname]

end Members

/-- What an event can do to the table. -/
theorem Outcome.agents_cases {m m' : Roster} {e : Event} {ids : List Int}
    (h : Outcome m e m' ids) :
    m'.agents = m.agents ∨
    (∃ name member now me, m.find? name = some member ∧
      member.link.Writes now m.agents me m'.agents) ∨
    (∃ name member now, m.find? name = some member ∧ member.link.Renews now m.agents m'.agents) ∨
    (∃ gone, m'.agents = m.agents.delete gone) ∨
    (∃ row, e = .put row ∧ m'.agents = m.agents.insert row) := by
  cases h with
  | absent | join | stopped | refused | kept | crash | advance | setClock => exact Or.inl rfl
  | wrote hfind hwrites _ => exact Or.inr (Or.inl ⟨_, _, _, _, hfind, hwrites⟩)
  | renewed hfind hrenews => exact Or.inr (Or.inr (Or.inl ⟨_, _, _, hfind, hrenews⟩))
  -- Who leaves may fail to, and then its record is not gone.
  | left _ _ htable =>
      rcases htable with rfl | rfl
      · exact Or.inr (Or.inr (Or.inr (Or.inl ⟨_, rfl⟩)))
      · exact Or.inl rfl
  | put row => exact Or.inr (Or.inr (Or.inr (Or.inr ⟨row, rfl, rfl⟩)))
  | delete gone => exact Or.inr (Or.inr (Or.inr (Or.inl ⟨gone, rfl⟩)))

/-- How a link takes part is settled when it joins. -/
theorem Outcome.member_cases {m m' : Roster} {e : Event} {ids : List Int} {name : String}
    {member' : Member} (h : Outcome m e m' ids) (hfind : m'.find? name = some member') :
    (∃ member, m.find? name = some member ∧ member'.link.role = member.link.role ∧
      member'.link.configured = member.link.configured ∧
      member'.link.expiration = member.link.expiration) ∨
    (∃ role configured expiration, e = .join name role configured expiration ∧
      member'.link = { name, role, configured, expiration }) := by
  cases h with
  | absent | advance | setClock | put | delete => exact Or.inl ⟨member', hfind, rfl, rfl, rfl⟩
  | join =>
      rcases cases_setMember hfind with ⟨rfl, rfl⟩ | ⟨_, hfind⟩
      · exact Or.inr ⟨_, _, _, rfl, rfl⟩
      · exact Or.inl ⟨member', hfind, rfl, rfl, rfl⟩
  | crash =>
      rw [find?_crash] at hfind
      split at hfind
      · cases hfind
      · exact Or.inl ⟨member', hfind, rfl, rfl, rfl⟩
  -- A refused renewal may have changed the snapshot, which is not asked about.
  | refused hactor hlink =>
      rcases cases_setMember hfind with ⟨rfl, rfl⟩ | ⟨_, hfind⟩
      · rcases hlink with rfl | rfl <;> exact Or.inl ⟨_, hactor, rfl, rfl, rfl⟩
      · exact Or.inl ⟨member', hfind, rfl, rfl, rfl⟩
  | wrote hactor | stopped hactor | renewed hactor | left hactor | kept _ hactor =>
      rcases cases_setMember hfind with ⟨rfl, rfl⟩ | ⟨_, hfind⟩
      · exact Or.inl ⟨_, hactor, rfl, rfl, rfl⟩
      · exact Or.inl ⟨member', hfind, rfl, rfl, rfl⟩

/-- A rule is kept by every event of a run, in the state in which it happens. -/
def Along (rule : Roster → Event → Prop) : Roster → List Event → Prop
  | _, [] => True
  | m, e :: es => rule m e ∧ Along rule (m.step e).1 es

instance Along.decidable (rule : Roster → Event → Prop) [∀ m e, Decidable (rule m e)] :
    ∀ m es, Decidable (Along rule m es)
  | _, [] => .isTrue trivial
  | m, e :: es =>
    have := decidable rule (m.step e).1 es
    inferInstanceAs (Decidable (rule m e ∧ _))

section Along

variable {rule : Roster → Event → Prop} {m : Roster} {es : List Event}

/-- An invariant of the steps that keep a rule is one of the runs that do. -/
theorem Along.invariant {inv : Roster → Prop} (h : Along rule m es) (hinit : inv m)
    (hstep : ∀ m e, inv m → rule m e → inv (m.step e).1) : inv (m.run es) := by
  induction es generalizing m with
  | nil => exact hinit
  | cons e es ih => exact ih h.2 (hstep m e hinit h.1)

theorem Along.imp {rule' : Roster → Event → Prop} (h : Along rule m es)
    (himp : ∀ m e, rule m e → rule' m e) : Along rule' m es := by
  induction es generalizing m with
  | nil => exact h
  | cons e es ih => exact ⟨himp _ _ h.1, ih h.2⟩

theorem Along.and {rule' : Roster → Event → Prop} (h : Along rule m es)
    (h' : Along rule' m es) : Along (fun m e => rule m e ∧ rule' m e) m es := by
  induction es generalizing m with
  | nil => exact h
  | cons e es ih => exact ⟨⟨h.1, h'.1⟩, ih h.2 h'.2⟩

/-- A rule of the events alone. -/
theorem along_of_forall {kind : Event → Prop} (h : ∀ e ∈ es, kind e) :
    Along (fun _ e => kind e) m es := by
  induction es generalizing m with
  | nil => exact trivial
  | cons e es ih =>
      exact ⟨h e List.mem_cons_self, ih (fun e' he' => h e' (List.mem_cons_of_mem _ he'))⟩

end Along

end Roster

end OutboxCluster
