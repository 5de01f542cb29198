import OutboxCluster.Proofs.Calm

/-!
# Attempts that Fail

A session works on a copy, so one that stops leaves the table and its ids as they
were. That much is in `Session.run`. What this module adds is the account of the
failures: which sessions stop, and what the link shows afterwards, for each of the
three attempts and whichever use it is that stops the session.

A plan decides about each use of a point, and a use that comes through leaves the plan
as it is. A session uses no point twice. So whether a session comes through is decided
by the plan that it starts with, by the points that it uses, and by whether the table
can be read; `pulseUses` and `renewUses` list the points. The rules of the uses say so
much: a use that comes through has changed nothing of the plan, and one that stops the
session was at a point that fails.

A renewal has a third outcome. It may find its record missing or over, or be told that
the record is gone, and then nothing has failed, but the agent has lost its lease.

## Main definitions

* `Access.fails`: A use of a point fails.
* `Link.pulseUses`, `Link.renewUses`, `Link.leaveUses`: The points that a session uses.
* `Link.Tells`, `Link.Overflows`: What a pulse can say of a record, and when it breaks down.
* `Link.Leased`: The own record is live.
* `Link.RenewsThrough`, `Link.RenewsInVain`: When a renewal comes through, and when it is
  refused.
* `Link.pulseResult`, `Link.renewResult`, `Link.leaveResult`: What a session comes to.
* `Link.Spoils`: An attempt that leaves all but the state of the agent as it was.

## Theorems

* `exact_use` and its like: The rules of the uses, with the point that fails.
* `through_pulse_iff`, `through_renew_iff`, `through_leave_iff`: Which sessions come
  through.
* `failed_sessions_are_atomic`: What a session leaves behind that does not.
-/

namespace OutboxCluster

/-- Whether the next use of a point fails. Opening a session also fails where the node
    has closed its access. -/
def Access.fails (a : Access) (point : UsePoint) : Bool :=
  (a.faults.strike point).1.isSome || (point == .begin && a.closed)

/-- Away from the opening of a session only the plan can make a use fail. -/
theorem Access.fails_eq_false {a : Access} {point : UsePoint} (hpoint : point ≠ .begin)
    (h : (a.faults.strike point).1.isSome = false) : a.fails point = false := by
  rw [Access.fails, h, beq_eq_false_iff_ne.mpr hpoint]
  rfl

/-- A use that comes through leaves the plan as it is. -/
theorem Faults.strike_of_isNone {f : Faults} {point : UsePoint}
    (h : (f.strike point).1 = none) : f.strike point = (none, f) := by
  unfold strike at h ⊢
  split at h
  · cases h
  · rfl

namespace SessionM

section Rules

variable {s : Session} {failed : Interruption → Session → Prop}

/-- A use that comes through has changed nothing. -/
theorem exact_use {point : UsePoint} {done : PUnit → Session → Prop}
    (hdone : (s.access.faults.strike point).1.isSome = false → done ⟨⟩ s)
    (hfailed : s.access.fails point = true → ∀ e access, failed (.failure e) { s with access }) :
    (use point).Ends s done failed := by
  refine ends_bind (ends_get ?_)
  cases hstrike : (s.access.faults.strike point).1 with
  | none =>
      rw [Faults.strike_of_isNone hstrike]
      exact ends_bind (ends_set (hdone (by rw [hstrike]; rfl)))
  | some e =>
      have hfails : s.access.fails point = true := by
        rw [Access.fails, hstrike]
        rfl
      rw [← Prod.eta (s.access.faults.strike point), hstrike]
      exact ends_bind (ends_set (hfailed hfails e _))

theorem exact_begin {done : PUnit → Session → Prop}
    (hdone : s.access.fails .begin = false → done ⟨⟩ s)
    (hfailed : s.access.fails .begin = true → ∀ e access, failed (.failure e) { s with access }) :
    begin.Ends s done failed := by
  refine ends_bind (exact_use (fun hspared => ends_bind (ends_get ?_)) hfailed)
  by_cases hclosed : s.access.closed = true
  · rw [if_pos hclosed]
    refine ends_throw (hfailed ?_ .closed s.access)
    rw [Access.fails, hclosed]
    exact Bool.or_true _
  · rw [if_neg hclosed]
    rw [Bool.not_eq_true] at hclosed
    exact ends_pure (hdone (by rw [Access.fails, hspared, hclosed]; rfl))

theorem exact_list {done : List Agent → Session → Prop}
    (hdone : s.access.fails .list = false → ∀ agents,
      s.table.list s.link.role = .ok agents → done agents s)
    (hfailed : s.access.fails .list = true ∨ (∀ agents, s.table.list s.link.role ≠ .ok agents) →
      ∀ e access, failed (.failure e) { s with access }) : list.Ends s done failed := by
  refine ends_bind (exact_use (fun hspared => ends_bind (ends_get ?_))
    (fun hfails => hfailed (Or.inl hfails)))
  cases hlist : s.table.list s.link.role with
  | error e =>
      exact ends_throw (hfailed (Or.inr (fun agents h => nomatch hlist.symm.trans h)) e s.access)
  | ok agents => exact ends_pure (hdone (Access.fails_eq_false (by decide) hspared) agents hlist)

theorem exact_create {agent : Agent} {done : Agent → Session → Prop}
    (hdone : s.access.fails .create = false → done { agent with id := s.table.nextId }
      { s with table := s.table.insert agent.row })
    (hfailed : s.access.fails .create = true → ∀ e access, failed (.failure e) { s with access }) :
    (create agent).Ends s done failed :=
  ends_bind (exact_use (fun hspared => ends_bind (ends_get (ends_bind (ends_set (ends_pure
    (hdone (Access.fails_eq_false (by decide) hspared))))))) hfailed)

/-- An update that comes through has overwritten the record, unless the plan has it find
    none. -/
theorem exact_update {agent : Agent} {done : Bool → Session → Prop}
    (hdone : s.access.fails .update = false → s.access.fails .updateLost = false →
      done (s.table.holds agent) { s with table := s.table.overwrite agent })
    (hlost : s.access.fails .update = false → s.access.fails .updateLost = true →
      ∀ access, done false { s with access })
    (hfailed : s.access.fails .update = true → ∀ e access, failed (.failure e) { s with access }) :
    (update agent).Ends s done failed := by
  refine ends_bind (exact_use (fun hspared => ends_bind (ends_get ?_)) hfailed)
  have hspared := Access.fails_eq_false (by decide) hspared
  -- The row may be reported gone although it was found.
  cases hstrike : (s.access.faults.strike .updateLost).1 with
  | none =>
      rw [Faults.strike_of_isNone hstrike]
      have hfound := Access.fails_eq_false (by decide : UsePoint.updateLost ≠ .begin)
        (by rw [hstrike]; rfl)
      exact ends_bind (ends_set (ends_pure (hdone hspared hfound)))
  | some e =>
      have hfails : s.access.fails .updateLost = true := by
        rw [Access.fails, hstrike]
        rfl
      rw [← Prod.eta (s.access.faults.strike .updateLost), hstrike]
      exact ends_bind (ends_set (ends_pure (hlost hspared hfails _)))

theorem exact_delete {ids : List Int} {done : PUnit → Session → Prop}
    (hdone : s.access.fails .deleteAgents = false →
      done ⟨⟩ { s with table := s.table.delete ids })
    (hfailed : s.access.fails .deleteAgents = true →
      ∀ e access, failed (.failure e) { s with access }) :
    (delete ids).Ends s done failed :=
  ends_bind (exact_use
    (fun hspared => ends_modify (hdone (Access.fails_eq_false (by decide) hspared))) hfailed)

theorem exact_commit {done : PUnit → Session → Prop}
    (hdone : s.access.fails .commit = false → done ⟨⟩ s)
    (hfailed : s.access.fails .commit = true → ∀ e access, failed (.failure e) { s with access }) :
    commit.Ends s done failed :=
  exact_use (fun hspared => hdone (Access.fails_eq_false (by decide) hspared)) hfailed

end Rules

end SessionM

namespace Link

/-- The points that a pulse uses if it finds these records of its role. It deletes only
    where a lease is over, and registers only without a live record. -/
def pulseUses (l : Link) (now : Int) (agents : List Agent) : List UsePoint :=
  [.begin, .list] ++ (if ∃ a ∈ agents, a.isExpired now = true then [.deleteAgents] else []) ++
    (if ∃ a ∈ agents, a.isExpired now = false ∧ l.selfId = some a.id then [] else [.create]) ++
    [.update, .updateLost, .commit]

theorem mem_pulseUses {l : Link} {now : Int} {agents : List Agent} {point : UsePoint} :
    point ∈ l.pulseUses now agents ↔
      point ∈ [UsePoint.begin, .list, .update, .updateLost, .commit] ∨
      (point = .deleteAgents ∧ ∃ a ∈ agents, a.isExpired now = true) ∨
      (point = .create ∧ ¬ ∃ a ∈ agents, a.isExpired now = false ∧ l.selfId = some a.id) := by
  unfold pulseUses
  split_ifs with hexpired hlive hlive <;>
    simp only [List.append_assoc, List.mem_append, List.mem_cons, List.not_mem_nil, hexpired, hlive,
      or_false, and_true, and_false, not_true_eq_false, not_false_eq_true, false_or] <;>
    tauto

/-- What has to be said of a record can be said: if it is one of a peer and has to go, it
    has been over for a time that is a reading. -/
def Tells (l : Link) (now : Int) (a : Agent) : Prop :=
  a.isExpired now = true → l.selfId = some a.id ∨ IsReading (now - a.expiration)

instance (l : Link) (now : Int) (a : Agent) : Decidable (l.Tells now a) :=
  inferInstanceAs (Decidable (_ → _))

theorem reclaimNotice?_eq_none_iff {l : Link} {now : Int} {a : Agent} :
    l.reclaimNotice? now a = none ↔ l.selfId ≠ some a.id ∧ ¬ IsReading (now - a.expiration) := by
  unfold reclaimNotice? reading?
  by_cases hown : l.selfId = some a.id
  · rw [if_pos hown]
    exact iff_of_false (Option.some_ne_none _) (fun h => h.1 hown)
  · rw [if_neg hown, Option.map_eq_none_iff, ite_eq_right_iff]
    exact ⟨fun h => ⟨hown, fun hreading => Option.some_ne_none _ (h hreading)⟩,
      fun h hreading => absurd hreading h.2⟩

/-- A pulse breaks down where it has read the table and cannot say what it has to. -/
def Overflows (l : Link) (now : Int) (access : Access) (t : AgentTable) : Prop :=
  access.fails .begin = false ∧ access.fails .list = false ∧
    ∃ agents, t.list l.role = .ok agents ∧ ∃ a ∈ agents, ¬ l.Tells now a

/-- The points that a renewal uses if it finds its record. -/
def renewUses : List UsePoint := [.begin, .list, .update, .updateLost, .commit]

/-- The record that the link takes for its own is in the table, and its lease is not
    over. -/
def Leased (l : Link) (now : Int) (t : AgentTable) : Prop :=
  ∃ me, l.selfId = some me.id ∧ t.Holds me ∧ me.role = l.role ∧ me.isExpired now = false

/-- A renewal that comes through has found its record live, and no use has failed. -/
def RenewsThrough (l : Link) (now : Int) (access : Access) (t : AgentTable) : Prop :=
  (∃ agents, t.list l.role = .ok agents) ∧ l.Leased now t ∧
    ∀ point ∈ renewUses, access.fails point = false

/-- A renewal that is refused has no record to renew, or none at its update. -/
def RenewsInVain (l : Link) (now : Int) (access : Access) (t : AgentTable) : Prop :=
  l.selfId = none ∨
    (∃ agents, t.list l.role = .ok agents) ∧
      access.fails .begin = false ∧ access.fails .list = false ∧
      (l.Leased now t → access.fails .update = false ∧ access.fails .updateLost = true)

/-- The points that a departure uses. -/
def leaveUses : List UsePoint := [.begin, .deleteAgents, .commit]

section Results

variable (l : Link) (moment : Moment) (access : Access) (t : AgentTable)

/-- What the session of a pulse comes to. -/
def pulseResult : Except Interruption Agent :=
  (Session.run (l.pulseSession moment.wall) (fun _ => true) l access t).1

/-- What the session of a renewal comes to. -/
def renewResult : Except Interruption Bool :=
  (Session.run (l.renewSession moment.wall) id l access t).1

/-- What the session of a departure from the record `id` comes to. -/
def leaveResult (id : Int) : Except Interruption Unit :=
  (Session.run (leaveSession id) (fun _ => true) { l with selfId := none } access t).1

/-- An attempt at `now` leaves the table and its ids as they were, and of the snapshot
    all but the state, which it leaves unless the lease may be lost. -/
structure Spoils (now : Nat) (a : Attempt) : Prop where
  table_eq : a.table = t
  snapshot_eq : a.link.snapshot = { l.snapshot with
    state := if l.snapshot.leaseDeadline.any (· ≤ now) then .suspended else l.snapshot.state }

end Results

section Sessions

open SessionM

variable {l : Link} {now : Int} {s : Session} {failed : Interruption → Session → Prop}

theorem exact_reclaim {expired : List Agent} {done : PUnit → Session → Prop}
    (hdone : (expired ≠ [] → s.access.fails .deleteAgents = false) →
      (∀ a ∈ expired, l.reclaimNotice? now a ≠ none) →
      ∀ ns, done ⟨⟩ { s with notices := ns, table := s.table.delete (expired.map (·.id)) })
    (hfailed : expired ≠ [] → s.access.fails .deleteAgents = true →
      (∀ a ∈ expired, l.reclaimNotice? now a ≠ none) →
      ∀ e access ns, failed (.failure e) { s with access, notices := ns })
    (hbroken : (∃ a ∈ expired, l.reclaimNotice? now a = none) →
      ∀ ns, failed .overflow { s with notices := ns }) :
    (l.reclaim now expired).Ends s done failed := by
  unfold reclaim
  cases expired with
  -- Without records to remove nothing is asked of the table.
  | nil =>
      have h := hdone (fun h => absurd rfl h) (List.forall_mem_nil _) s.notices
      rw [List.map_nil, Table.delete_nil] at h
      exact ends_pure h
  | cons a as =>
      refine ends_bind (ends_announces (fun ns hns => ?_) (fun told b rest ns heq _ hnone => ?_))
      · exact exact_delete (fun hspared => hdone (fun _ => hspared) hns.ne_none _)
          (fun hfails e access => hfailed (List.cons_ne_nil _ _) hfails hns.ne_none e access _)
      · refine hbroken ⟨b, ?_, hnone⟩ _
        rw [heq]
        exact List.mem_append_right _ List.mem_cons_self

theorem exact_register {live : List Agent} {done : Agent × List Agent → Session → Prop}
    (hdone : ((∀ a ∈ live, l.selfId ≠ some a.id) → s.access.fails .create = false) →
      ∀ own live' t₁, l.Enrols now live s.table own live' t₁ →
        ∀ selfId ns, (selfId = none → s.link.selfId = none) →
        done (own, live') { s with link.selfId := selfId, notices := ns, table := t₁ })
    (hfailed : (∀ a ∈ live, l.selfId ≠ some a.id) → s.access.fails .create = true →
      ∀ e access ns, failed (.failure e) { s with access, notices := ns }) :
    (l.register now live).Ends s done failed := by
  unfold register
  cases hfind : live.find? fun a => l.selfId = some a.id with
  | some me =>
      have hmem := List.mem_of_find?_eq_some hfind
      have hfound := List.find?_some hfind
      have hself : l.selfId = some me.id := of_decide_eq_true hfound
      exact ends_pure (hdone (fun hmissing => absurd hself (hmissing me hmem)) me live s.table
        (Enrols.own hmem hself) s.link.selfId s.notices id)
  | none =>
      have hmissing : ∀ a ∈ live, l.selfId ≠ some a.id := by
        intro a ha hself
        have := List.find?_eq_none.mp hfind a ha
        exact this (decide_eq_true hself)
      have hnew := fun hspared ns => hdone (fun _ => hspared) _ _ _ (Enrols.new hmissing)
        (some s.table.nextId) ns (fun h => nomatch h)
      dsimp only
      -- The notice about an old id makes no difference to what follows.
      cases l.selfId with
      | none =>
          refine ends_bind (exact_create (fun hspared => ?_)
            (fun hfails e access => hfailed hmissing hfails e access _))
          exact ends_bind (ends_report (ends_bind (ends_remember (ends_pure (hnew hspared _)))))
      | some old =>
          refine ends_bind (ends_report (ends_bind (exact_create (fun hspared => ?_)
            (fun hfails e access => hfailed hmissing hfails e access _))))
          exact ends_bind (ends_report (ends_bind (ends_remember (ends_pure (hnew hspared _)))))

/-- The record is there, so what can go wrong is what the plan says. -/
theorem exact_settle {me : Agent} {done : Agent → Session → Prop}
    (hheld : s.table.holds me = true)
    (hdone : s.access.fails .update = false → s.access.fails .updateLost = false →
      s.access.fails .commit = false → done me { s with table := s.table.overwrite me })
    (hfailed : ∀ point ∈ [UsePoint.update, .updateLost, .commit], s.access.fails point = true →
      ∀ e access selfId table, (selfId = none → s.link.selfId = none ∨ point = .updateLost) →
        failed (.failure e) { s with access, table, link.selfId := selfId }) :
    (settle me).Ends s done failed := by
  unfold settle
  refine ends_bind (exact_update (fun hspared hfound => ?_) (fun _ hlost access => ?_)
    (fun hfails e access =>
      hfailed .update (by decide) hfails e access s.link.selfId s.table Or.inl))
  · rw [hheld]
    exact ends_bind (exact_commit (fun hspared' => ends_pure (hdone hspared hfound hspared'))
      (fun hfails e access => hfailed .commit (by decide) hfails e access s.link.selfId _ Or.inl))
  · exact ends_bind (ends_remember (ends_bind (ends_throw
      (hfailed .updateLost (by decide) hlost _ access none s.table (fun _ => Or.inr rfl)))))

/-- Why a pulse stops. A use has failed or the table cannot be read, and then the own id
    is taken away only if the update was lost; or the pulse breaks down. -/
def Stops (l : Link) (now : Int) (access : Access) (t : AgentTable) :
    Interruption → Session → Prop
  | .failure _, s => ¬ l.Overflows now access t ∧
      (∀ agents, t.list l.role = .ok agents →
        ∃ point ∈ l.pulseUses now agents, access.fails point = true) ∧
      (s.link.selfId = none → l.selfId = none ∨ access.fails .updateLost = true)
  | .overflow, _ => l.Overflows now access t

/-- A pulse comes through if the table can be read, all that is to be reported can be, and
    none of its uses fails, and only then. -/
theorem exact_pulseSession (l : Link) (now : Int) {t : AgentTable} (hord : t.Ordered)
    (access : Access) :
    (l.pulseSession now).Ends { link := l, access, table := t }
      (fun _ _ => ∃ agents, t.list l.role = .ok agents ∧ (∀ a ∈ agents, l.Tells now a) ∧
        ∀ point ∈ l.pulseUses now agents, access.fails point = false)
      (l.Stops now access t) := by
  unfold pulseSession
  refine ends_bind (exact_begin (fun hbegin => ?_) (fun hfails _ _ => ⟨fun hover => ?_,
    fun agents _ => ⟨.begin, mem_pulseUses.mpr (Or.inl (by decide)), hfails⟩, Or.inl⟩))
  rotate_left
  · exact Bool.noConfusion (hfails.symm.trans hover.1)
  refine ends_bind (exact_list (fun hlist agents hagents => ?_)
    (fun hstops _ _ => ⟨fun hover => ?_, fun agents hagents => ?_, Or.inl⟩))
  rotate_left
  · rcases hstops with hfails | hunread
    · exact Bool.noConfusion (hfails.symm.trans hover.2.1)
    · rcases hover.2.2 with ⟨agents, hagents, _⟩
      exact hunread agents hagents
  · rcases hstops with hfails | hunread
    · exact ⟨.list, mem_pulseUses.mpr (Or.inl (by decide)), hfails⟩
    · exact absurd hagents (hunread agents)
  -- From here on the records are known, and with them the points that are used.
  have hstops : ∀ point ∈ l.pulseUses now agents, access.fails point = true →
      ∀ agents, t.list l.role = .ok agents →
        ∃ point ∈ l.pulseUses now agents, access.fails point = true := by
    intro point hmem hfails agents' hagents'
    rw [Except.ok.inj (hagents.symm.trans hagents')] at hmem
    exact ⟨point, hmem, hfails⟩
  have hlives : ∀ a, a ∈ agents.filter (not ∘ (·.isExpired now)) ↔
      a ∈ agents ∧ a.isExpired now = false := by
    intro a
    rw [List.mem_filter, Function.comp_apply, Bool.not_eq_true']
  have htells : (∀ a ∈ agents.filter (·.isExpired now), l.reclaimNotice? now a ≠ none) →
      ∀ a ∈ agents, l.Tells now a :=
    fun h a ha hover => by
      have := h a (List.mem_filter.mpr ⟨ha, hover⟩)
      rw [Ne, reclaimNotice?_eq_none_iff, not_and_or, not_not, not_not] at this
      exact this
  have hcalm : (∀ a ∈ agents.filter (·.isExpired now), l.reclaimNotice? now a ≠ none) →
      ¬ l.Overflows now access t := by
    rintro h ⟨_, _, agents', hagents', a, ha, hover⟩
    rw [← Except.ok.inj (hagents.symm.trans hagents')] at ha
    exact hover (htells h a ha)
  rw [List.partition_eq_filter_filter]
  refine ends_bind (exact_reclaim (fun hdelete htold ns => ends_bind (exact_register
    (fun hcreate own live t₁ henrols selfId ns' hself => ?_)
    (fun hmissing hfails _ _ _ => ⟨hcalm htold, ?_, Or.inl⟩)))
    (fun hexpired hfails htold _ _ _ => ⟨hcalm htold, ?_, Or.inl⟩) (fun hbroken _ => ?_))
  · refine ends_bind (ends_decide (fun reported ns'' _ => exact_settle ?_ (fun hupdate hfound
      hcommit => ⟨agents, hagents, htells htold, fun point hmem => ?_⟩)
      (fun point hmem hfails _ _ _ _ hlost => ⟨hcalm htold, ?_, fun hnone => ?_⟩)))
    · -- The record that is written has been read or inserted in this session.
      have hdecides := henrols.decides (hord.delete _) (list_reclaimed hord hagents now)
      have hown := (AgentTable.mem_list_iff hdecides.list_eq).mp hdecides.own_mem
      refine AgentTable.holds_iff.mpr ⟨own.row, ?_, ?_⟩
      · rw [(leased_fields _ _ _ _).1, (decision_fields _ _ _).1]
        exact hown.1
      · rw [(leased_fields _ _ _ _).2, (decision_fields _ _ _).2]
        rfl
    · rcases mem_pulseUses.mp hmem with hmem | ⟨rfl, a, ha, hover⟩ | ⟨rfl, hnone⟩
      · simp only [List.mem_cons, List.not_mem_nil, or_false] at hmem
        rcases hmem with rfl | rfl | rfl | rfl | rfl
        · exact hbegin
        · exact hlist
        · exact hupdate
        · exact hfound
        · exact hcommit
      · exact hdelete (List.ne_nil_of_mem (List.mem_filter.mpr ⟨ha, hover⟩))
      · exact hcreate (fun a ha hself =>
          hnone ⟨a, ((hlives a).mp ha).1, ((hlives a).mp ha).2, hself⟩)
    · refine hstops point (mem_pulseUses.mpr (Or.inl ?_)) hfails
      exact List.mem_cons_of_mem _ (List.mem_cons_of_mem _ hmem)
    · rcases hlost hnone with hgone | rfl
      · exact Or.inl (hself hgone)
      · exact Or.inr hfails
  · refine hstops .create (mem_pulseUses.mpr (Or.inr (Or.inr ⟨rfl, ?_⟩))) hfails
    rintro ⟨a, ha, hlive, hself⟩
    exact hmissing a ((hlives a).mpr ⟨ha, hlive⟩) hself
  · rcases List.exists_mem_of_ne_nil _ hexpired with ⟨a, ha⟩
    exact hstops .deleteAgents (mem_pulseUses.mpr (Or.inr (Or.inl
      ⟨rfl, a, (List.mem_filter.mp ha).1, (List.mem_filter.mp ha).2⟩))) hfails
  · rcases hbroken with ⟨a, ha, hnone⟩
    rw [List.mem_filter] at ha
    refine ⟨hbegin, hlist, agents, hagents, a, ha.1, fun htells => ?_⟩
    exact (htells ha.2).elim (reclaimNotice?_eq_none_iff.mp hnone).1
      (reclaimNotice?_eq_none_iff.mp hnone).2

/-- The record of the own id that a renewal finds is the one that the table has. -/
theorem leased_iff {t : AgentTable} (hord : t.Ordered) {agents : List Agent}
    (hlist : t.list l.role = .ok agents) {id : Int} (hself : l.selfId = some id) (now : Int) :
    l.Leased now t ↔ ∃ me, agents.find? (·.id = id) = some me ∧ me.isExpired now = false := by
  constructor
  · rintro ⟨me, hme, hheld, hrole, hlive⟩
    have hid : me.id = id := Option.some.inj (hme.symm.trans hself)
    cases hfind : agents.find? (·.id = id) with
    | none =>
        have hmem : me ∈ agents := (AgentTable.mem_list_iff hlist).mpr ⟨hheld, hrole⟩
        exact absurd (decide_eq_true hid) (List.find?_eq_none.mp hfind me hmem)
    | some a =>
        have hfound := List.find?_some hfind
        have ha := (AgentTable.mem_list_iff hlist).mp (List.mem_of_find?_eq_some hfind)
        -- The record that is found by the id is the own one, since an id names one row.
        have hsame : a = me :=
          AgentTable.Holds.eq_of_id_eq hord ha.1 hheld ((of_decide_eq_true hfound).trans hid.symm)
        exact ⟨a, rfl, by rw [hsame]; exact hlive⟩
  · rintro ⟨me, hfind, hlive⟩
    have hfound := List.find?_some hfind
    have hid : me.id = id := of_decide_eq_true hfound
    have hme := (AgentTable.mem_list_iff hlist).mp (List.mem_of_find?_eq_some hfind)
    exact ⟨me, by rw [hself, hid], hme.1, hme.2, hlive⟩

/-- A renewal stops at the use that fails, and otherwise finds its record live or not. -/
theorem exact_renewSession (l : Link) (now : Int) {t : AgentTable} (hord : t.Ordered)
    (access : Access) :
    (l.renewSession now).Ends { link := l, access, table := t }
      (fun renewed _ => (renewed = true ↔ l.RenewsThrough now access t) ∧
        (renewed = false ↔ l.RenewsInVain now access t))
      (fun _ _ => ¬ l.RenewsThrough now access t ∧ ¬ l.RenewsInVain now access t) := by
  -- The two accounts exclude each other, so the one that fits settles both.
  have hrefused : l.RenewsInVain now access t → ¬ l.RenewsThrough now access t →
      (false = true ↔ l.RenewsThrough now access t) ∧
        (false = false ↔ l.RenewsInVain now access t) :=
    fun hvain hthrough => ⟨iff_of_false Bool.false_ne_true hthrough, iff_of_true rfl hvain⟩
  unfold renewSession
  cases hself : l.selfId with
  | none =>
      refine ends_pure (hrefused (Or.inl hself) (fun hthrough => ?_))
      rcases hthrough.2.1 with ⟨me, hme, _⟩
      exact nomatch hself.symm.trans hme
  | some id =>
      have hstops : ∀ point ∈ renewUses, access.fails point = true →
          ¬ l.RenewsThrough now access t := by
        intro point hmem hfails hthrough
        rw [hthrough.2.2 point hmem] at hfails
        cases hfails
      have hown : l.RenewsInVain now access t → (∃ agents, t.list l.role = .ok agents) ∧
          access.fails .begin = false ∧ access.fails .list = false ∧
          (l.Leased now t → access.fails .update = false ∧ access.fails .updateLost = true) :=
        fun hvain => hvain.resolve_left (by rw [hself]; exact Option.some_ne_none id)
      refine ends_bind (exact_begin (fun hbegin => ?_) (fun hfails _ _ =>
        ⟨hstops .begin (by decide) hfails, fun hvain => ?_⟩))
      rotate_left
      · exact Bool.noConfusion (hfails.symm.trans (hown hvain).2.1)
      refine ends_bind (exact_list (fun hlist agents hagents => ?_) (fun hreads _ _ => ?_))
      rotate_left
      · rcases hreads with hfails | hunread
        · exact ⟨hstops .list (by decide) hfails, fun hvain =>
            Bool.noConfusion (hfails.symm.trans (hown hvain).2.2.1)⟩
        · exact ⟨fun hthrough => hthrough.1.elim hunread, fun hvain => (hown hvain).1.elim hunread⟩
      have hleased := leased_iff hord hagents hself now
      have hmissing := fun hnot : ¬ l.Leased now t =>
        hrefused (Or.inr ⟨⟨agents, hagents⟩, hbegin, hlist, fun h => absurd h hnot⟩)
          (fun hthrough => hnot hthrough.2.1)
      cases hfind : agents.find? (·.id = id) with
      | none =>
          refine ends_pure (hmissing (fun h => ?_))
          rcases hleased.mp h with ⟨me, hme, _⟩
          exact nomatch hfind.symm.trans hme
      | some me =>
          dsimp only
          by_cases hexpired : me.isExpired now = true
          · rw [if_pos hexpired]
            refine ends_pure (hmissing (fun h => ?_))
            rcases hleased.mp h with ⟨me', hme', hlive⟩
            rw [hfind, Option.some.injEq] at hme'
            rw [hme', hlive] at hexpired
            cases hexpired
          · rw [if_neg hexpired]
            have hlease := hleased.mpr ⟨me, hfind, Bool.eq_false_iff.mpr hexpired⟩
            have hheld := (AgentTable.mem_list_iff hagents).mp (List.mem_of_find?_eq_some hfind)
            refine ends_bind (exact_update (fun hupdate hfound => ?_) (fun hupdate hlost _ => ?_)
              (fun hfails _ _ => ⟨hstops .update (by decide) hfails, fun hvain => ?_⟩))
            · -- The record was found in this session, so the update finds it too.
              have hholds : t.holds { me with expiration := l.leaseEnd now } = true :=
                AgentTable.holds_iff.mpr ⟨me.row, hheld.1, rfl⟩
              have hvain : ¬ l.RenewsInVain now access t := fun hvain =>
                Bool.noConfusion (hfound.symm.trans ((hown hvain).2.2.2 hlease).2)
              rw [if_neg (by rw [hholds]; decide)]
              refine ends_bind (exact_commit (fun hcommit => ends_pure ⟨iff_of_true rfl
                ⟨⟨agents, hagents⟩, hlease, fun point hmem => ?_⟩, iff_of_false (by decide) hvain⟩)
                (fun hfails _ _ => ⟨hstops .commit (by decide) hfails, hvain⟩))
              simp only [renewUses, List.mem_cons, List.not_mem_nil, or_false] at hmem
              rcases hmem with rfl | rfl | rfl | rfl | rfl
              · exact hbegin
              · exact hlist
              · exact hupdate
              · exact hfound
              · exact hcommit
            · exact ends_pure (hrefused (Or.inr ⟨⟨agents, hagents⟩, hbegin, hlist,
                fun _ => ⟨hupdate, hlost⟩⟩) (hstops .updateLost (by decide) hlost))
            · exact Bool.noConfusion (hfails.symm.trans ((hown hvain).2.2.2 hlease).1)

/-- A departure comes through if none of its uses fails, and only then. -/
theorem exact_leaveSession (l : Link) (id : Int) (t : AgentTable) (access : Access) :
    (leaveSession id).Ends { link := l, access, table := t }
      (fun _ _ => ∀ point ∈ leaveUses, access.fails point = false)
      (fun _ _ => ∃ point ∈ leaveUses, access.fails point = true) := by
  refine ends_bind (exact_begin (fun hbegin => ends_bind (exact_delete (fun hdelete =>
    exact_commit (fun hcommit point hmem => ?_) (fun hfails _ _ => ⟨.commit, by decide, hfails⟩))
    (fun hfails _ _ => ⟨.deleteAgents, by decide, hfails⟩)))
    (fun hfails _ _ => ⟨.begin, by decide, hfails⟩))
  simp only [leaveUses, List.mem_cons, List.not_mem_nil, or_false] at hmem
  rcases hmem with rfl | rfl | rfl
  · exact hbegin
  · exact hdelete
  · exact hcommit

end Sessions

theorem snapshot_afterFailure (l : Link) (now : Nat) :
    (l.afterFailure now).snapshot = { l.snapshot with
      state :=
        if l.snapshot.leaseDeadline.any (· ≤ now) then .suspended else l.snapshot.state } := by
  simp only [afterFailure]
  split <;> rfl

section Attempts

variable {l : Link} {moment : Moment} {access : Access} {t : AgentTable}

theorem spoils_of_failed_pulse {e : StoreError}
    (h : l.pulseResult moment access t = .error (.failure e)) :
    l.Spoils t moment.opened (l.pulse moment access t) := by
  rcases Session.run_of_ends (fun _ => true) access
    (ends_pulseSession l moment.wall t access) with
    ⟨me, s, _, hrun⟩ | ⟨e' | _, s, hstopped, hrun⟩
  · rw [pulseResult, hrun] at h
    cases h
  · rcases hstopped with ⟨selfId, reported, hlink, _⟩
    refine ⟨?_, ?_⟩
    · simp only [pulse, hrun, failed]
    · simp only [pulse, hrun, failed, hlink]
      exact snapshot_afterFailure _ _
  · rw [pulseResult, hrun] at h
    cases h

/-- A pulse breaks down if its session is interrupted by an overflow, and only then. -/
theorem broken_pulse_iff :
    (l.pulse moment access t).broken = true ↔ l.pulseResult moment access t = .error .overflow := by
  rw [pulseResult, ← Session.broken_run_iff, broken_pulse]

theorem through_pulse_iff (hord : t.Ordered) :
    ((l.pulseResult moment access t).isOk = true ↔ ∃ agents, t.list l.role = .ok agents ∧
      (∀ a ∈ agents, l.Tells moment.wall a) ∧
      ∀ point ∈ l.pulseUses moment.wall agents, access.fails point = false) ∧
    (l.pulseResult moment access t = .error .overflow ↔ l.Overflows moment.wall access t) := by
  -- The three ends exclude one another, so each of them is told by its own condition.
  rcases Session.run_of_ends (fun _ => true) access
    (exact_pulseSession l moment.wall hord access) with
    ⟨me, s, hthrough, hrun⟩ | ⟨e | _, s, hstops, hrun⟩
  · rw [pulseResult, hrun]
    refine ⟨iff_of_true rfl hthrough, iff_of_false (fun h => nomatch h) ?_⟩
    rintro ⟨_, _, agents', hagents', a, ha, hover⟩
    rcases hthrough with ⟨agents, hagents, htells, _⟩
    rw [← Except.ok.inj (hagents.symm.trans hagents')] at ha
    exact hover (htells a ha)
  · rw [pulseResult, hrun]
    refine ⟨iff_of_false Bool.false_ne_true ?_, iff_of_false (fun h => nomatch h) hstops.1⟩
    rintro ⟨agents, hagents, _, hspared⟩
    rcases hstops.2.1 agents hagents with ⟨point, hmem, hfails⟩
    exact Bool.noConfusion (hfails.symm.trans (hspared point hmem))
  · rw [pulseResult, hrun]
    refine ⟨iff_of_false Bool.false_ne_true ?_, iff_of_true rfl hstops⟩
    rintro ⟨agents, hagents, htells, _⟩
    rcases hstops with ⟨_, _, agents', hagents', a, ha, hover⟩
    rw [← Except.ok.inj (hagents.symm.trans hagents')] at ha
    exact hover (htells a ha)

/-- A renewal that stops is a failure, and one that is refused only suspends. -/
theorem spoils_of_failed_renew (hstate : l.snapshot.state ≠ .suspended) :
    ((l.renewResult moment access t).isOk = false →
      l.Spoils t moment.opened (l.renew moment access t)) ∧
    (l.renewResult moment access t = .ok false → (l.renew moment access t).table = t ∧
      (l.renew moment access t).link = { l with snapshot.state := .suspended }) := by
  rcases Session.run_of_ends id access (ends_renewSession l moment.wall t access) with
    ⟨renewed, s, ⟨hlink, _, _⟩, hrun⟩ | ⟨e, s, ⟨_, hlink, _⟩, hrun⟩
  · refine ⟨fun h => ?_, fun h => ?_⟩
    · rw [renewResult, hrun] at h
      cases h
    · rw [renewResult, hrun, Except.ok.injEq] at h
      subst h
      simp only [renew, if_neg hstate, hrun, hlink, id, Bool.false_eq_true, if_false]
      exact ⟨trivial, trivial⟩
  · refine ⟨fun _ => ⟨?_, ?_⟩, fun h => ?_⟩
    · simp only [renew, if_neg hstate, hrun, failed]
    · simp only [renew, if_neg hstate, hrun, failed, hlink]
      exact snapshot_afterFailure _ _
    · rw [renewResult, hrun] at h
      cases h

theorem through_renew_iff (hord : t.Ordered) :
    (l.renewResult moment access t = .ok true ↔ l.RenewsThrough moment.wall access t) ∧
    (l.renewResult moment access t = .ok false ↔ l.RenewsInVain moment.wall access t) := by
  rcases Session.run_of_ends id access (exact_renewSession l moment.wall hord access) with
    ⟨renewed, s, h, hrun⟩ | ⟨e, s, ⟨hthrough, hvain⟩, hrun⟩
  · rw [renewResult, hrun, Except.ok.injEq, Except.ok.injEq]
    exact h
  · rw [renewResult, hrun]
    exact ⟨iff_of_false (fun h => nomatch h) hthrough, iff_of_false (fun h => nomatch h) hvain⟩

theorem through_leave_iff {id : Int} : (l.leaveResult access t id).isOk = true ↔
    ∀ point ∈ leaveUses, access.fails point = false := by
  rcases Session.run_of_ends (fun _ => true) access
    (exact_leaveSession { l with selfId := none } id t access) with
    ⟨_, s, hthrough, hrun⟩ | ⟨e, s, ⟨point, hmem, hfails⟩, hrun⟩
  · rw [leaveResult, hrun]
    exact iff_of_true rfl hthrough
  · rw [leaveResult, hrun]
    refine iff_of_false Bool.false_ne_true (fun hspared => ?_)
    exact Bool.noConfusion (hfails.symm.trans (hspared point hmem))

/-- An agent that has a record has left for its own part, and if that failed then the
    record is still there. -/
theorem departed_of_leave {id : Int} (hself : l.selfId = some id) :
    (l.leave access t).link.snapshot = .departed ∧
    ((l.leaveResult access t id).isOk = false → (l.leave access t).table = t) := by
  rcases Session.run_of_ends (fun _ => true) access
    (ends_leaveSession { l with selfId := none } id t access) with
    ⟨_, s, _, hrun⟩ | ⟨e, s, _, hrun⟩
  · refine ⟨by simp only [leave, hself, hrun], fun h => ?_⟩
    rw [leaveResult, hrun] at h
    cases h
  · simp only [leave, hself, hrun]
    exact ⟨trivial, fun _ => trivial⟩

/-- A session that stops at whichever use leaves the table and its ids as they were. A
    failed pulse or renewal suspends the agent if its lease may be lost by the monotonic
    clock, and changes nothing else of the snapshot; a renewal without a live record
    suspends it and changes nothing else at all; a failed departure leaves nothing in the
    snapshot. A pulse that breaks down changes nothing. Where the rows are in order, a
    session stops exactly if the table cannot be read or one of the points that it uses
    fails, or if it is a pulse that has to tell what is no reading. -/
theorem failed_sessions_are_atomic (l : Link) (moment : Moment) (access : Access)
    (t : AgentTable) :
    ((∃ e, l.pulseResult moment access t = .error (.failure e)) →
      l.Spoils t moment.opened (l.pulse moment access t)) ∧
    (l.pulseResult moment access t = .error .overflow →
      (l.pulse moment access t).table = t ∧ (l.pulse moment access t).link = l) ∧
    (l.snapshot.state = .suspended →
      l.renew moment access t = { link := l, access, table := t, notices := [] }) ∧
    (l.snapshot.state ≠ .suspended →
      ((l.renewResult moment access t).isOk = false →
        l.Spoils t moment.opened (l.renew moment access t)) ∧
      (l.renewResult moment access t = .ok false → (l.renew moment access t).table = t ∧
        (l.renew moment access t).link = { l with snapshot.state := .suspended })) ∧
    (∀ id, l.selfId = some id → (l.leave access t).link.snapshot = .departed ∧
      ((l.leaveResult access t id).isOk = false → (l.leave access t).table = t)) ∧
    (t.Ordered →
      ((l.pulseResult moment access t).isOk = true ↔ ∃ agents, t.list l.role = .ok agents ∧
        (∀ a ∈ agents, l.Tells moment.wall a) ∧
        ∀ point ∈ l.pulseUses moment.wall agents, access.fails point = false) ∧
      (l.pulseResult moment access t = .error .overflow ↔ l.Overflows moment.wall access t) ∧
      (l.renewResult moment access t = .ok true ↔ l.RenewsThrough moment.wall access t) ∧
      (l.renewResult moment access t = .ok false ↔ l.RenewsInVain moment.wall access t) ∧
      (∀ id, (l.leaveResult access t id).isOk = true ↔
        ∀ point ∈ leaveUses, access.fails point = false)) := by
  refine ⟨fun ⟨_, h⟩ => spoils_of_failed_pulse h, fun h => pulse_of_broken (broken_pulse_iff.mpr h),
    fun hstate => ?_, spoils_of_failed_renew, fun _ => departed_of_leave,
    fun hord => ⟨(through_pulse_iff hord).1, (through_pulse_iff hord).2, (through_renew_iff hord).1,
      (through_renew_iff hord).2, fun _ => through_leave_iff⟩⟩
  -- A suspended link asks nothing of the table.
  rw [renew, if_pos hstate]

/-- A running agent whose deadline is near, with its record in `crowded`. -/
def tired : Link :=
  { name := "a", role := "r", configured := none, expiration := 3000, selfId := some 1
    snapshot := { agentId := some 1, state := .running, leaseDeadline := some 3000 } }

/-- A table with the record of `tired` and with one of a peer that is over. -/
def crowded : AgentTable :=
  { rows := [(1, ⟨"r", "a", 3000, .running, none, none, none⟩),
      (2, ⟨"r", "b", 100, .running, none, none, none⟩)]
    lastId := 2 }

/-- A session that cannot be committed, and is only opened when the lease may be lost. -/
theorem failed_sessions_are_atomic_at_commit :
    let moment : Moment := ⟨500, 500, 4000⟩
    let access : Access := { faults := { armed := [(.commit, 3, .database)] } }
    (tired.pulse moment access crowded).table = crowded ∧
    (tired.pulse moment access crowded).link.snapshot =
      { tired.snapshot with state := .suspended } ∧
    (tired.renew moment access crowded).table = crowded ∧
    (tired.renew moment access crowded).link.snapshot =
      { tired.snapshot with state := .suspended } ∧
    (tired.leave access crowded).table = crowded ∧
    (tired.leave access crowded).link.snapshot = .departed ∧
    ¬ tired.RenewsInVain 500 access crowded := by
  intro moment access
  have hord : crowded.Ordered := ⟨by decide, by decide⟩
  rcases failed_sessions_are_atomic tired moment access crowded with
    ⟨hpulse, _, _, hrenew, hleave, hexact⟩
  have hpulse := hpulse ⟨.database, by rfl⟩
  have hrenew := (hrenew (by decide)).1 (by decide +kernel)
  have hleave := hleave 1 rfl
  refine ⟨hpulse.table_eq, hpulse.snapshot_eq, hrenew.table_eq, hrenew.snapshot_eq,
    hleave.2 (by decide +kernel), hleave.1, fun hvain => ?_⟩
  have hrefused := congrArg Except.isOk ((hexact hord).2.2.2.1.mpr hvain)
  exact absurd hrefused (by decide +kernel)

end Attempts

end Link

end OutboxCluster
