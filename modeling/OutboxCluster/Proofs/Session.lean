import OutboxCluster.Link.Session

/-!
# How a Session Ends

A session is a computation that may stop at any use of the table, and what it has
done by then decides what its link remembers. `Ends` states both outcomes at
once: what holds if the computation comes through and what holds if it stops,
which may depend on why it does. There is one rule for each use, so the law of a
whole session follows the text of the session, and the plan of failures never has
to be looked at: a rule asks for both outcomes, with whatever plan is left.

## Main definitions

* `SessionM.Ends`: What holds when a computation has come to its end.

## Theorems

* `ends_bind`: The rule of sequence.
* `Ends.and`, `Ends.imp`: Two laws of one computation, and a weaker one.
* `ends_begin`, `ends_list`, `ends_create`, `ends_update`, `ends_delete`,
  `ends_use`: The rules of the uses.
* `ends_report`, `ends_remember`: The rules of what cannot fail.
* `Session.run_of_ends`: What becomes of the table.
* `Session.broken_run_iff`: Which computations break down.
-/

namespace OutboxCluster

namespace SessionM

variable {α β : Type}

/-- From `s` the computation comes through with `done`, or stops with `failed`. -/
def Ends (act : SessionM α) (s : Session) (done : α → Session → Prop)
    (failed : Interruption → Session → Prop) : Prop :=
  match StateT.run (ExceptT.run act) s with
  | (.ok a, s') => done a s'
  | (.error e, s') => failed e s'

section Rules

variable {s : Session} {failed : Interruption → Session → Prop}

theorem ends_pure {a : α} {done : α → Session → Prop} (h : done a s) :
    (pure a : SessionM α).Ends s done failed :=
  h

theorem ends_throw {e : Interruption} {done : α → Session → Prop} (h : failed e s) :
    (throw e : SessionM α).Ends s done failed :=
  h

theorem ends_get {done : Session → Session → Prop} (h : done s s) :
    (get : SessionM Session).Ends s done failed :=
  h

theorem ends_set {s' : Session} {done : PUnit → Session → Prop} (h : done ⟨⟩ s') :
    (set s' : SessionM PUnit).Ends s done failed :=
  h

theorem ends_modify {f : Session → Session} {done : PUnit → Session → Prop}
    (h : done ⟨⟩ (f s)) : (modify f : SessionM PUnit).Ends s done failed :=
  h

theorem ends_bind {act : SessionM α} {next : α → SessionM β} {done : β → Session → Prop}
    (h : act.Ends s (fun a s' => (next a).Ends s' done failed) failed) :
    (act >>= next).Ends s done failed := by
  simp only [Ends, ExceptT.run_bind, StateT.run_bind] at h ⊢
  rcases hrun : StateT.run (ExceptT.run act) s with ⟨_ | a, s'⟩
  · simp only [hrun] at h
    exact h
  · simp only [hrun] at h
    exact h

/-- Two laws about one computation. -/
theorem Ends.and {act : SessionM α} {done done' : α → Session → Prop}
    {failed' : Interruption → Session → Prop} (h : act.Ends s done failed)
    (h' : act.Ends s done' failed') :
    act.Ends s (fun a s' => done a s' ∧ done' a s') (fun e s' => failed e s' ∧ failed' e s') := by
  simp only [Ends] at h h' ⊢
  rcases hrun : StateT.run (ExceptT.run act) s with ⟨_ | a, s'⟩
  · rw [hrun] at h h'
    exact ⟨h, h'⟩
  · rw [hrun] at h h'
    exact ⟨h, h'⟩

/-- A law that says more also says less. -/
theorem Ends.imp {act : SessionM α} {done done' : α → Session → Prop}
    {failed' : Interruption → Session → Prop} (h : act.Ends s done failed)
    (hdone : ∀ a s', done a s' → done' a s') (hfailed : ∀ e s', failed e s' → failed' e s') :
    act.Ends s done' failed' := by
  simp only [Ends] at h ⊢
  rcases hrun : StateT.run (ExceptT.run act) s with ⟨e | a, s'⟩
  · rw [hrun] at h
    exact hfailed e s' h
  · rw [hrun] at h
    exact hdone a s' h

theorem ends_report {n : Notice} {done : PUnit → Session → Prop}
    (h : done ⟨⟩ { s with notices := s.notices ++ [n] }) : (report n).Ends s done failed :=
  h

theorem ends_remember {id : Option Int} {done : PUnit → Session → Prop}
    (h : done ⟨⟩ { s with link.selfId := id }) : (remember id).Ends s done failed :=
  h

/-- A use of a point changes nothing but what is left of the plan. -/
theorem ends_use {point : UsePoint} {done : PUnit → Session → Prop}
    (hdone : ∀ access, done ⟨⟩ { s with access })
    (hfailed : ∀ e access, failed (.failure e) { s with access }) :
    (use point).Ends s done failed := by
  refine ends_bind (ends_get ?_)
  rcases s.access.faults.strike point with ⟨_ | e, faults⟩
  · exact ends_bind (ends_set (hdone _))
  · exact ends_bind (ends_set (hfailed e _))

theorem ends_begin {done : PUnit → Session → Prop}
    (hdone : ∀ access, done ⟨⟩ { s with access })
    (hfailed : ∀ e access, failed (.failure e) { s with access }) :
    begin.Ends s done failed := by
  refine ends_bind (ends_use (fun access => ends_bind (ends_get ?_)) hfailed)
  by_cases hclosed : access.closed = true
  · simp only [if_pos hclosed]
    exact ends_throw (hfailed .closed access)
  · simp only [if_neg hclosed]
    exact ends_pure (hdone access)

/-- A list that comes through is what the table says. -/
theorem ends_list {done : List Agent → Session → Prop}
    (hdone : ∀ access agents, s.table.list s.link.role = .ok agents → done agents { s with access })
    (hfailed : ∀ e access, failed (.failure e) { s with access }) : list.Ends s done failed := by
  refine ends_bind (ends_use (fun access => ends_bind (ends_get ?_)) hfailed)
  dsimp only
  cases hlist : s.table.list s.link.role with
  | error e => exact ends_throw (hfailed e access)
  | ok agents => exact ends_pure (hdone access agents hlist)

theorem ends_create {agent : Agent} {done : Agent → Session → Prop}
    (hdone : ∀ access, done { agent with id := s.table.nextId }
      { s with access, table := s.table.insert agent.row })
    (hfailed : ∀ e access, failed (.failure e) { s with access }) :
    (create agent).Ends s done failed :=
  ends_bind (ends_use
    (fun access => ends_bind (ends_get (ends_bind (ends_set (ends_pure (hdone access)))))) hfailed)

/-- An update overwrites the record, if there is one, or else finds none and
    leaves the table alone; by the plan it may also find none though there is
    one. -/
theorem ends_update {agent : Agent} {done : Bool → Session → Prop}
    (hdone : ∀ access, done (s.table.holds agent)
      { s with access, table := s.table.overwrite agent })
    (hlost : ∀ access, done false { s with access })
    (hfailed : ∀ e access, failed (.failure e) { s with access }) :
    (update agent).Ends s done failed := by
  refine ends_bind (ends_use (fun access => ends_bind (ends_get ?_)) hfailed)
  dsimp only
  rcases access.faults.strike .updateLost with ⟨_ | e, faults⟩
  · exact ends_bind (ends_set (ends_pure (hdone access)))
  · exact ends_bind (ends_set (ends_pure (hlost _)))

theorem ends_delete {ids : List Int} {done : PUnit → Session → Prop}
    (hdone : ∀ access, done ⟨⟩ { s with access, table := s.table.delete ids })
    (hfailed : ∀ e access, failed (.failure e) { s with access }) :
    (delete ids).Ends s done failed :=
  ends_bind (ends_use (fun access => ends_modify (hdone access)) hfailed)

end Rules

end SessionM

/-- What breaks down is a computation that stops at an overflow. -/
theorem Session.broken_run_iff {α : Type} {act : SessionM α} {keeps : α → Bool} {l : Link}
    {access : Access} {t : AgentTable} : (Session.run act keeps l access t).2.broken = true ↔
      (Session.run act keeps l access t).1 = .error .overflow := by
  simp only [Session.run]
  rcases StateT.run (ExceptT.run act) ({ link := l, access, table := t } : Session) with
    ⟨(_ | _) | _, _⟩
  · exact iff_of_false Bool.false_ne_true (fun h => nomatch h)
  · exact iff_of_true rfl rfl
  · exact iff_of_false Bool.false_ne_true (fun h => nomatch h)

/-- A computation that comes through changes the table if its result is to be
    kept; one that stops never does. -/
theorem Session.run_of_ends {α : Type} {act : SessionM α} (keeps : α → Bool) {l : Link}
    (access : Access) {t : AgentTable} {done : α → Session → Prop}
    {failed : Interruption → Session → Prop}
    (h : act.Ends { link := l, access, table := t } done failed) :
    (∃ a s, done a s ∧ Session.run act keeps l access t =
      (.ok a, { link := s.link, access := s.access, notices := s.notices
                table := if keeps a then s.table else t })) ∨
    (∃ e s, failed e s ∧ Session.run act keeps l access t =
      (.error e, { link := s.link, access := s.access, notices := s.notices, table := t
                   broken := e == .overflow })) := by
  simp only [SessionM.Ends] at h
  simp only [Session.run]
  rcases hrun : StateT.run (ExceptT.run act) { link := l, access, table := t } with ⟨e | a, s⟩
  · rw [hrun] at h
    -- The table is given back either way; the two differ in what they leave to the caller.
    cases e with
    | failure e => exact Or.inr ⟨.failure e, s, h, rfl⟩
    | overflow => exact Or.inr ⟨.overflow, s, h, rfl⟩
  · rw [hrun] at h
    exact Or.inl ⟨a, s, h, rfl⟩

end OutboxCluster
