import OutboxCluster.Link.Pulse
import OutboxCluster.Proofs.Record
import OutboxCluster.Proofs.Session

/-!
# What an Attempt Can Do

Everything a pulse, a renewal and a departure can do to the table and to the
link, said once for each, so that no law about a run has to open a session
again. `pulse_cases`, `renew_cases` and `leave_cases` list the outcomes: the
session came through and the table was changed in one way, or it stopped and the
table is as it was. What a link remembers is less simple. A session that stops
late has already told the link the id of a record which is then taken back, and
an update that finds no record makes the link forget its id.

Whether a session has inserted a record is seen from outside by what the link
reports, and `registrations` reads it off.

`Writes` describes a pulse that came through as the session has it: who was live,
whether the agent registered, what it decided.

## Main definitions

* `registrations`: The ids under which records were reported as inserted.
* `Link.decision`: What an agent decides.
* `Link.Enrols`: The own record and the live ones, after registering.
* `Link.Writes`: What a pulse that came through did to the table.
* `Link.Renews`: What a renewal that came through did to the table.
* `Link.Remembers`: Where a session that stopped has left the id of its link.

## Theorems

* `pulse_cases`, `pulse_of_broken`: The outcomes of a pulse.
* `renew_cases`, `broken_renew`: The outcomes of a renewal.
* `leave_cases`: The outcomes of a departure.
* `name_pulse`, `name_leave`, `renew_frame`: What no attempt changes.
-/

namespace OutboxCluster

/-- The id of a record that a notice reports as inserted. -/
def Notice.registration? : Notice → Option Int
  | .registered id => some id
  | _ => none

/-- The ids under which records were reported as inserted. -/
def registrations (ns : List Notice) : List Int := ns.filterMap Notice.registration?

@[simp] theorem registrations_nil : registrations [] = [] := rfl

theorem registrations_append (ns ms : List Notice) :
    registrations (ns ++ ms) = registrations ns ++ registrations ms :=
  List.filterMap_append

theorem Snapshot.canProcess_iff {s : Snapshot} {now : Nat} : s.canProcess now = true ↔
    s.state = .running ∧ ∃ deadline, s.leaseDeadline = some deadline ∧ now < deadline := by
  rw [canProcess, Bool.and_eq_true, beq_iff_eq, Option.any_eq_true]
  simp only [decide_eq_true_eq]

namespace Link

/-- What an agent decides from the live records `live`, its own among them. -/
def decision (l : Link) (me : Agent) (live : List Agent) : Agent :=
  let peers := live.filter (·.id ≠ me.id)
  match l.configured with
  | none => decideDynamic me (live.map (·.id)) peers
  | some configured => (decideStatic me configured peers).1

/-- A decision is about state and shard, and leaves the rest of a record alone. -/
theorem decision_fields (l : Link) (me : Agent) (live : List Agent) :
    (l.decision me live).id = me.id ∧ (l.decision me live).role = me.role := by
  unfold decision
  cases l.configured with
  | some configured => exact ⟨rfl, rfl⟩
  | none =>
      simp only [decideDynamic]
      by_cases htarget : me.assignment ≠ dynamicAssignment (live.map (·.id)) me.id
      · rw [if_pos htarget]
        exact ⟨rfl, rfl⟩
      · rw [if_neg htarget]
        split <;> exact ⟨rfl, rfl⟩

theorem leased_fields (l : Link) (now : Int) (me : Agent) (live : List Agent) :
    (l.leased now me live).id = me.id ∧ (l.leased now me live).role = me.role :=
  ⟨rfl, rfl⟩

/-- The record under which an agent registers. -/
def created (l : Link) (now : Int) (t : AgentTable) : Agent :=
  { l.newRecord now with id := t.nextId }

/-- The own record of an agent, the live ones, and the table with them, where
    `live` are the live ones before it registers, if it has to. -/
inductive Enrols (l : Link) (now : Int) (live : List Agent) (t : AgentTable) :
    Agent → List Agent → AgentTable → Prop where
  | own {me : Agent} : me ∈ live → l.selfId = some me.id → Enrols l now live t me live t
  | new : (∀ a ∈ live, l.selfId ≠ some a.id) →
      Enrols l now live t (l.created now t) (live ++ [l.created now t])
        (t.insert (l.created now t).row)

/-- A pulse that came through has written `me` and changed the table from `t` to
    `t'`. -/
def Writes (l : Link) (now : Int) (t : AgentTable) (me : Agent) (t' : AgentTable) : Prop :=
  ∃ agents own live t₁, t.list l.role = .ok agents ∧
    Enrols l now (agents.filter (! ·.isExpired now))
      (t.delete ((agents.filter (·.isExpired now)).map (·.id))) own live t₁ ∧
    me = l.leased now (l.decision own live) live ∧ t₁.holds me = true ∧ t' = t₁.overwrite me

/-- A renewal that came through has found the own record live and has changed
    the table from `t` to `t'`. -/
def Renews (l : Link) (now : Int) (t t' : AgentTable) : Prop :=
  ∃ me, l.selfId = some me.id ∧ t.Holds me ∧ me.role = l.role ∧ me.isExpired now = false ∧
    t' = t.overwrite { me with expiration := l.leaseEnd now }

/-- A failure suspends the agent at most. -/
theorem afterFailure_snapshot (l : Link) (now : Nat) :
    (l.afterFailure now).snapshot = l.snapshot ∨
      (l.afterFailure now).snapshot = { l.snapshot with state := .suspended } := by
  simp only [afterFailure]
  split
  · exact Or.inr rfl
  · exact Or.inl rfl

/-- The records have been reported, each by one notice. -/
def Announces (l : Link) (now : Int) (as : List Agent) (ns : List Notice) : Prop :=
  as.map (l.reclaimNotice? now) = ns.map some

theorem Announces.cons {l : Link} {now : Int} {a : Agent} {as : List Agent} {n : Notice}
    {ns : List Notice} (h : l.Announces now as ns) (hnotice : l.reclaimNotice? now a = some n) :
    l.Announces now (a :: as) (n :: ns) := by
  rw [Announces, List.map_cons, List.map_cons, hnotice, h]

/-- Whatever holds of all that can be reported holds of what was. -/
theorem Announces.forall {l : Link} {now : Int} {as : List Agent} {ns : List Notice}
    (h : l.Announces now as ns) {p : Notice → Prop}
    (hp : ∀ a ∈ as, ∀ n, l.reclaimNotice? now a = some n → p n) : ∀ n ∈ ns, p n := by
  intro n hn
  have hmem : some n ∈ as.map (l.reclaimNotice? now) := h ▸ List.mem_map_of_mem hn
  rcases List.mem_map.mp hmem with ⟨a, ha, hnotice⟩
  exact hp a ha n hnotice

theorem Announces.ne_none {l : Link} {now : Int} {as : List Agent} {ns : List Notice}
    (h : l.Announces now as ns) : ∀ a ∈ as, l.reclaimNotice? now a ≠ none := by
  intro a ha hnone
  have hmem : none ∈ ns.map some := h ▸ List.mem_map.mpr ⟨a, ha, hnone⟩
  rcases List.mem_map.mp hmem with ⟨_, _, hsome⟩
  cases hsome

/-- The removal of a record is no insertion. -/
theorem Announces.registrations_eq {l : Link} {now : Int} {as : List Agent} {ns : List Notice}
    (h : l.Announces now as ns) : registrations ns = [] := by
  refine List.filterMap_eq_nil_iff.mpr (h.forall fun a _ n hnotice => ?_)
  unfold reclaimNotice? at hnotice
  split at hnotice
  · rw [← Option.some.inj hnotice]
    rfl
  · rcases Option.map_eq_some_iff.mp hnotice with ⟨_, _, rfl⟩
    rfl

section Sessions

open SessionM

variable {l : Link} {now : Int} {s : Session} {failed : Interruption → Session → Prop}

/-- The records are reported in their order, up to the first one that cannot be. -/
theorem ends_announces {expired : List Agent} {done : PUnit → Session → Prop}
    (hdone : ∀ ns, l.Announces now expired ns →
      done ⟨⟩ { s with notices := s.notices ++ ns })
    (hbroken : ∀ told a rest ns, expired = told ++ a :: rest → l.Announces now told ns →
      l.reclaimNotice? now a = none → failed .overflow { s with notices := s.notices ++ ns }) :
    (expired.forM (l.announce now)).Ends s done failed := by
  induction expired generalizing s with
  | nil =>
      have h := hdone [] rfl
      rw [List.append_nil] at h
      exact h
  | cons a as ih =>
      rw [List.forM_eq_forM, List.forM_cons]
      refine ends_bind ?_
      unfold announce
      cases hnotice : l.reclaimNotice? now a with
      -- The first record that cannot be told of ends the walk, with those before it told.
      | none =>
          have h := hbroken [] a as [] rfl rfl hnotice
          rw [List.append_nil] at h
          exact ends_throw h
      | some n =>
          refine ends_report (ih (fun ns hns => ?_) (fun told b rest ns heq hns hnone => ?_))
          · rw [List.append_assoc]
            exact hdone (n :: ns) (hns.cons hnotice)
          · rw [List.append_assoc]
            exact hbroken (a :: told) b rest (n :: ns) (congrArg (a :: ·) heq) (hns.cons hnotice)
              hnone

/-- Every record that is over is reported before they are removed, so this stays if the
    session stops there. -/
theorem ends_reclaim_announced {expired : List Agent} {done : PUnit → Session → Prop}
    (hdone : ∀ access ns, l.Announces now expired ns → done ⟨⟩
      { s with access, notices := s.notices ++ ns, table := s.table.delete (expired.map (·.id)) })
    (hfailed : ∀ e access ns, l.Announces now expired ns →
      failed (.failure e) { s with access, notices := s.notices ++ ns })
    (hbroken : ∀ told a rest ns, expired = told ++ a :: rest → l.Announces now told ns →
      l.reclaimNotice? now a = none → failed .overflow { s with notices := s.notices ++ ns }) :
    (l.reclaim now expired).Ends s done failed := by
  unfold reclaim
  cases expired with
  | nil =>
      have h := hdone s.access [] rfl
      simp only [List.map_nil, List.append_nil, Table.delete_nil] at h
      exact ends_pure h
  | cons a as =>
      exact ends_bind (ends_announces (fun ns hns => ends_delete (fun access => hdone access ns hns)
        (fun e access => hfailed e access ns hns)) hbroken)

/-- A session that stopped has reported no record as inserted. -/
theorem ends_reclaim {expired : List Agent} {done : PUnit → Session → Prop}
    (hdone : ∀ access ns, registrations ns = [] → done ⟨⟩
      { s with access, notices := s.notices ++ ns, table := s.table.delete (expired.map (·.id)) })
    (hfailed : ∀ e access ns, registrations ns = [] →
      failed (.failure e) { s with access, notices := s.notices ++ ns })
    (hbroken : ∀ ns, registrations ns = [] →
      failed .overflow { s with notices := s.notices ++ ns }) :
    (l.reclaim now expired).Ends s done failed :=
  ends_reclaim_announced (fun access ns hns => hdone access ns hns.registrations_eq)
    (fun e access ns hns => hfailed e access ns hns.registrations_eq)
    (fun _ _ _ ns _ hns _ => hbroken ns hns.registrations_eq)

/-- An agent with a live record goes on with it, and any other one registers. -/
theorem ends_register {live : List Agent} {done : Agent × List Agent → Session → Prop}
    (hown : ∀ me ∈ live, l.selfId = some me.id → done (me, live) s)
    (hnew : (∀ a ∈ live, l.selfId ≠ some a.id) → ∀ access ns, registrations ns = [s.table.nextId] →
      done (l.created now s.table, live ++ [l.created now s.table])
        { s with
          access, notices := s.notices ++ ns, link.selfId := some s.table.nextId
          table := s.table.insert (l.created now s.table).row })
    (hfailed : ∀ e access ns, registrations ns = [] →
      failed (.failure e) { s with access, notices := s.notices ++ ns }) :
    (l.register now live).Ends s done failed := by
  unfold register
  cases hfind : live.find? fun a => l.selfId = some a.id with
  | some me =>
      have hself := List.find?_some hfind
      exact ends_pure (hown me (List.mem_of_find?_eq_some hfind) (of_decide_eq_true hself))
  | none =>
      have hmissing : ∀ a ∈ live, l.selfId ≠ some a.id := by
        intro a ha hself
        have := List.find?_eq_none.mp hfind a ha
        exact this (decide_eq_true hself)
      dsimp only
      -- The notice about an old id makes no difference to what follows.
      cases l.selfId with
      | none =>
          refine ends_bind (ends_create (fun access => ?_) (fun e access => ?_))
          · exact ends_bind (ends_report (ends_bind (ends_remember (ends_pure
              (hnew hmissing access [.registered s.table.nextId] rfl)))))
          · have h := hfailed e access [] rfl
            rw [List.append_nil] at h
            exact h
      | some old =>
          refine ends_bind (ends_report (ends_bind (ends_create (fun access => ?_)
            (fun e access => hfailed e access [.registeringAgain old] rfl))))
          have h := hnew hmissing access
            ([.registeringAgain old] ++ [.registered s.table.nextId]) rfl
          rw [← List.append_assoc s.notices] at h
          exact ends_bind (ends_report (ends_bind (ends_remember (ends_pure h))))

/-- Deciding touches nothing but the memory of a conflict. -/
theorem ends_decide {me : Agent} {live : List Agent} {done : Agent → Session → Prop}
    (hdone : ∀ reported ns, registrations ns = [] → done (l.decision me live)
      { s with link.conflictReported := reported, notices := s.notices ++ ns }) :
    (l.decide me live).Ends s done failed := by
  unfold decide
  unfold decision at hdone
  cases hconf : l.configured with
  | none =>
      have h := hdone s.link.conflictReported [] rfl
      rw [hconf, List.append_nil] at h
      exact ends_pure h
  | some configured =>
      rw [hconf] at hdone
      dsimp only at hdone ⊢
      generalize decideStatic me configured (live.filter (·.id ≠ me.id)) = outcome at hdone ⊢
      rcases outcome with ⟨me', _ | peer⟩
      · have h := hdone false [] rfl
        rw [List.append_nil] at h
        exact ends_bind (ends_modify (ends_pure h))
      · dsimp only
        -- Whether the conflict has been reported before decides on the notice alone.
        by_cases hrep : (! l.conflictReported) = true
        · rw [if_pos hrep]
          exact ends_bind (ends_report (ends_bind (ends_modify (ends_pure
            (hdone true [.conflict me'.id peer.id] rfl)))))
        · rw [if_neg hrep]
          have h := hdone true [] rfl
          rw [List.append_nil] at h
          exact ends_bind (ends_modify (ends_pure h))

/-- The record is overwritten, or the session stops, and then the link forgets
    its id if no record was found. -/
theorem ends_settle {me : Agent} {done : Agent → Session → Prop}
    (hdone : ∀ access, s.table.holds me = true → done me
      { s with access, table := s.table.overwrite me })
    (hlost : ∀ e access table, failed (.failure e) { s with access, table, link.selfId := none })
    (hfailed : ∀ e access table, failed (.failure e) { s with access, table }) :
    (settle me).Ends s done failed := by
  unfold settle
  refine ends_bind (ends_update (fun access => ?_) (fun access => ?_)
    (fun e access => hfailed e access s.table))
  · dsimp only
    -- The update may come through and find no record all the same.
    cases hheld : s.table.holds me with
    | false =>
        exact ends_bind (ends_remember (ends_bind (ends_throw (hlost _ access _))))
    | true =>
        exact ends_bind (ends_use (fun access' => ends_pure (hdone access' hheld))
          (fun e access' => hfailed e access' _))
  · exact ends_bind (ends_remember (ends_bind (ends_throw (hlost _ access s.table))))

/-- Where a session that stopped has left the id of its link, given the ids under
    which it inserted a record into `t`. -/
inductive Remembers (l : Link) (t : AgentTable) : List Int → Option Int → Prop where
  /-- No record was inserted, and the id is as before. -/
  | kept : Remembers l t [] l.selfId
  /-- A record was inserted, and the link has its id though it is gone. -/
  | taken : Remembers l t [t.nextId] (some t.nextId)
  /-- The update found no record. -/
  | forgotten {ids : List Int} : ids = [] ∨ ids = [t.nextId] → Remembers l t ids none

/-- What a pulse that stops has done to its link: nothing if it breaks down, and otherwise
    it may have told the link of a record. -/
def Interrupted (l : Link) (t : AgentTable) : Interruption → Session → Prop
  | .overflow, s => s.link = l ∧ registrations s.notices = []
  | .failure _, s => ∃ selfId reported, s.link = { l with selfId, conflictReported := reported } ∧
    l.Remembers t (registrations s.notices) selfId

/-- A pulse that comes through has written the own record, and one that fails has
    inserted a record or not. -/
theorem ends_pulseSession (l : Link) (now : Int) (t : AgentTable) (access : Access) :
    (l.pulseSession now).Ends { link := l, access, table := t }
      (fun me s => l.Writes now t me s.table ∧
        (∃ reported, s.link =
          { l with selfId := some me.id, conflictReported := reported }) ∧
        (registrations s.notices = [] ∧ l.selfId = some me.id ∧ me.id ∈ t.ids ∨
          registrations s.notices = [t.nextId] ∧ me.id = t.nextId))
      (l.Interrupted t) := by
  have hkept : ∀ reported ns, registrations ns = [] → ∃ selfId reported',
      ({ l with conflictReported := reported } : Link) =
        { l with selfId, conflictReported := reported' } ∧
      l.Remembers t (registrations ns) selfId := by
    intro reported ns hns
    rw [hns]
    exact ⟨l.selfId, reported, rfl, Remembers.kept⟩
  unfold pulseSession
  -- Up to the list nothing was done, so a session that stops there has left all as it was.
  refine ends_bind (ends_begin (fun _ => ends_bind (ends_list (fun _ agents hlist => ?_)
    (fun _ _ => hkept _ [] rfl))) (fun _ _ => hkept _ [] rfl))
  -- The records whose lease is over go first, and the decision is about the rest.
  rw [List.partition_eq_filter_filter]
  refine ends_bind (ends_reclaim (fun _ ns hns => ?_) (fun _ _ ns hns => hkept _ ns hns)
    (fun _ hns => ⟨rfl, hns⟩))
  refine ends_bind (ends_register (fun own hmem hself => ?_) (fun hmissing _ ns' hns' => ?_)
    (fun _ _ ns' hns' => hkept _ (ns ++ ns') (by rw [registrations_append, hns, hns']; rfl)))
  · -- The own record is live, and nothing is inserted.
    refine ends_bind (ends_decide (fun reported ns' hns' => ?_))
    have hreg : registrations (ns ++ ns') = [] := by
      rw [registrations_append, hns, hns']
      rfl
    refine ends_settle (fun _ hheld => ⟨?_, ⟨reported, ?_⟩, ?_⟩) (fun _ _ _ => ?_)
      (fun _ _ _ => hkept reported (ns ++ ns') hreg)
    · exact ⟨agents, own, _, _, hlist, Enrols.own hmem hself, rfl, hheld, rfl⟩
    · rw [(leased_fields _ _ _ _).1, (decision_fields _ _ _).1, ← hself]
    · rw [(leased_fields _ _ _ _).1, (decision_fields _ _ _).1]
      have hheld' := (AgentTable.mem_list_iff hlist).mp (List.mem_filter.mp hmem).1
      exact Or.inl ⟨hreg, hself, Table.mem_ids_of_mem hheld'.1⟩
    · exact ⟨none, reported, rfl, Remembers.forgotten (Or.inl hreg)⟩
  · -- The agent registers, and its record has the next id.
    refine ends_bind (ends_decide (fun reported ns'' hns'' => ?_))
    have hreg : registrations (ns ++ ns' ++ ns'') = [t.nextId] := by
      rw [registrations_append, registrations_append, hns, hns', hns'']
      rfl
    have htaken : l.Remembers t (registrations (ns ++ ns' ++ ns'')) (some t.nextId) := by
      rw [hreg]
      exact Remembers.taken
    refine ends_settle (fun _ hheld => ⟨?_, ⟨reported, ?_⟩, ?_⟩) (fun _ _ _ => ?_)
      (fun _ _ _ => ⟨some t.nextId, reported, rfl, htaken⟩)
    · exact ⟨agents, _, _, _, hlist, Enrols.new hmissing, rfl, hheld, rfl⟩
    · rw [(leased_fields _ _ _ _).1, (decision_fields _ _ _).1]
      rfl
    · rw [(leased_fields _ _ _ _).1, (decision_fields _ _ _).1]
      exact Or.inr ⟨hreg, rfl⟩
    · exact ⟨none, reported, rfl, Remembers.forgotten (Or.inr hreg)⟩

/-- A renewal that comes through has found the own record live, and one that
    stops has failed and touched nothing. -/
theorem ends_renewSession (l : Link) (now : Int) (t : AgentTable) (access : Access) :
    (l.renewSession now).Ends { link := l, access, table := t }
      (fun renewed s => s.link = l ∧ s.notices = [] ∧ (renewed = true → l.Renews now t s.table))
      (fun e s => (∃ x, e = .failure x) ∧ s.link = l ∧ s.notices = []) := by
  have hfalse : ∀ s : Session, s.link = l → s.notices = [] →
      s.link = l ∧ s.notices = [] ∧ (false = true → l.Renews now t s.table) :=
    fun s hlink hnotices => ⟨hlink, hnotices, fun h => absurd h Bool.false_ne_true⟩
  unfold renewSession
  cases hself : l.selfId with
  | none => exact ends_pure (hfalse _ rfl rfl)
  | some id =>
      refine ends_bind (ends_begin (fun _ => ends_bind (ends_list (fun _ agents hlist => ?_)
        (fun e _ => ⟨⟨e, rfl⟩, rfl, rfl⟩))) (fun e _ => ⟨⟨e, rfl⟩, rfl, rfl⟩))
      cases hfind : agents.find? (·.id = id) with
      | none => exact ends_pure (hfalse _ rfl rfl)
      | some me =>
          have hfound := List.find?_some hfind
          have hid : me.id = id := of_decide_eq_true hfound
          have hheld := (AgentTable.mem_list_iff hlist).mp (List.mem_of_find?_eq_some hfind)
          dsimp only
          -- A record whose lease is over is as good as none.
          by_cases hexpired : me.isExpired now = true
          · rw [if_pos hexpired]
            exact ends_pure (hfalse _ rfl rfl)
          · rw [if_neg hexpired]
            refine ends_bind (ends_update (fun _ => ?_)
              (fun _ => ends_pure (hfalse _ rfl rfl)) (fun e _ => ⟨⟨e, rfl⟩, rfl, rfl⟩))
            -- The record was found in this session, so the update finds it too.
            have hholds : t.holds { me with expiration := l.leaseEnd now } = true :=
              AgentTable.holds_iff.mpr ⟨me.row, hheld.1, rfl⟩
            rw [if_neg (by rw [hholds]; decide)]
            refine ends_bind (ends_use (fun _ => ends_pure ⟨rfl, rfl, fun _ => ?_⟩)
              (fun e _ => ⟨⟨e, rfl⟩, rfl, rfl⟩))
            exact ⟨me, by rw [hself, hid], hheld.1, hheld.2, Bool.eq_false_iff.mpr hexpired, rfl⟩

/-- A departure that comes through has removed the record. -/
theorem ends_leaveSession (l : Link) (id : Int) (t : AgentTable) (access : Access) :
    (leaveSession id).Ends { link := l, access, table := t }
      (fun _ s => s.link = l ∧ s.notices = [] ∧ s.table = t.delete [id])
      (fun _ s => s.link = l ∧ s.notices = []) :=
  ends_bind (ends_begin (fun _ => ends_bind (ends_delete
    (fun _ => ends_use (fun _ => ⟨rfl, rfl, rfl⟩) (fun _ _ => ⟨rfl, rfl⟩))
    (fun _ _ => ⟨rfl, rfl⟩))) (fun _ _ => ⟨rfl, rfl⟩))

end Sessions

/-- The outcomes of a pulse. Either the own record was written, and the link shows
    what it wrote; or the table is as before, and the link shows what it did unless
    its lease may be lost; or the pulse broke down, and all is as before. -/
theorem pulse_cases (l : Link) (moment : Moment) (access : Access) (t : AgentTable) :
    (∃ me reported, l.Writes moment.wall t me (l.pulse moment access t).table ∧
      (l.pulse moment access t).link = ({ l with
        selfId := some me.id, conflictReported := reported } : Link).afterPulse moment.started me ∧
      (registrations (l.pulse moment access t).notices = [] ∧ l.selfId = some me.id ∧
          me.id ∈ t.ids ∨
        registrations (l.pulse moment access t).notices = [t.nextId] ∧ me.id = t.nextId)) ∨
    (∃ selfId reported, (l.pulse moment access t).table = t ∧
      (l.pulse moment access t).link = ({ l with
        selfId, conflictReported := reported } : Link).afterFailure moment.opened ∧
      l.Remembers t (registrations (l.pulse moment access t).notices) selfId) ∨
    ((l.pulse moment access t).broken = true ∧ (l.pulse moment access t).table = t ∧
      (l.pulse moment access t).link = l ∧
      registrations (l.pulse moment access t).notices = []) := by
  rcases Session.run_of_ends (fun _ => true) access
    (ends_pulseSession l moment.wall t access) with
    ⟨me, s, ⟨hwrites, ⟨reported, hlink⟩, hreg⟩, hrun⟩ |
    ⟨e | _, s, hstopped, hrun⟩
  · refine Or.inl ⟨me, reported, ?_⟩
    -- What is reported after the session says nothing of insertions.
    have hquiet : ∀ l' : Link, registrations (l'.pulseNotices me) = [] := by
      intro l'
      unfold pulseNotices
      rw [registrations_append]
      split <;> split <;> rfl
    simp only [pulse, hrun, hlink, if_true, registrations_append, hquiet, List.append_nil]
    exact ⟨hwrites, trivial, hreg⟩
  · rcases hstopped with ⟨selfId, reported, hlink, hremembers⟩
    refine Or.inr (Or.inl ⟨selfId, reported, ?_⟩)
    have hquiet : ∀ l' : Link, registrations (l'.failureNotices moment.opened) = [] := by
      intro l'
      unfold failureNotices
      split <;> rfl
    simp only [pulse, hrun, failed, hlink, registrations_append, hquiet, List.append_nil]
    exact ⟨trivial, trivial, hremembers⟩
  · refine Or.inr (Or.inr ?_)
    simp only [pulse, hrun]
    exact ⟨rfl, trivial, hstopped⟩

/-- A pulse breaks down if its session does. -/
theorem broken_pulse (l : Link) (moment : Moment) (access : Access) (t : AgentTable) :
    (l.pulse moment access t).broken =
      (Session.run (l.pulseSession moment.wall) (fun _ => true) l access t).2.broken := by
  unfold pulse
  rcases Session.run (l.pulseSession moment.wall) (fun _ => true) l access t with
    ⟨(_ | _) | _, _⟩ <;> rfl

/-- A pulse that breaks down leaves all as it was. -/
theorem pulse_of_broken {l : Link} {moment : Moment} {access : Access} {t : AgentTable}
    (h : (l.pulse moment access t).broken = true) :
    (l.pulse moment access t).table = t ∧ (l.pulse moment access t).link = l := by
  rcases Session.run_of_ends (fun _ => true) access
    (ends_pulseSession l moment.wall t access) with
    ⟨_, s, _, hrun⟩ | ⟨e | _, s, hstopped, hrun⟩
  · simp only [pulse, hrun] at h
    cases h
  · simp only [pulse, hrun, failed] at h
    cases h
  · simp only [pulse, hrun]
    exact ⟨trivial, hstopped.1⟩

/-- A renewal does not break down. -/
theorem broken_renew (l : Link) (moment : Moment) (access : Access) (t : AgentTable) :
    (l.renew moment access t).broken = false := by
  unfold renew
  split
  · rfl
  · rcases Session.run_of_ends id access (ends_renewSession l moment.wall t access) with
      ⟨renewed, s, _, hrun⟩ | ⟨e, s, ⟨⟨x, rfl⟩, _⟩, hrun⟩
    · rw [hrun]
      cases renewed <;> rfl
    · rw [hrun]
      rfl

/-- The outcomes of a renewal, which never inserts a record. A suspended agent
    makes no attempt; otherwise the lease is written and the deadline moves, or
    there was no live record and the agent is suspended, or the session stopped. -/
theorem renew_cases (l : Link) (moment : Moment) (access : Access) (t : AgentTable) :
    registrations (l.renew moment access t).notices = [] ∧
    ((l.snapshot.state = .suspended ∧ (l.renew moment access t).table = t ∧
        (l.renew moment access t).link = l) ∨
      (l.snapshot.state ≠ .suspended ∧ l.Renews moment.wall t (l.renew moment access t).table ∧
        (l.renew moment access t).link = { l with
          failures := 0
          snapshot.leaseDeadline := some (moment.started + l.expiration) }) ∨
      (l.snapshot.state ≠ .suspended ∧ (l.renew moment access t).table = t ∧
        ((l.renew moment access t).link = { l with snapshot.state := .suspended } ∨
          (l.renew moment access t).link = l.afterFailure moment.opened))) := by
  by_cases hstate : l.snapshot.state = .suspended
  · simp only [renew, if_pos hstate]
    exact ⟨rfl, Or.inl ⟨hstate, trivial, trivial⟩⟩
  · rcases Session.run_of_ends id access
      (ends_renewSession l moment.wall t access) with
      ⟨renewed, s, ⟨hlink, hnotices, hrenews⟩, hrun⟩ | ⟨e, s, ⟨_, hlink, hnotices⟩, hrun⟩
    -- A session may come through without having found the record; that suspends the link.
    · cases renewed with
      | true =>
          simp only [renew, if_neg hstate, hrun, hlink, hnotices, id, if_true]
          exact ⟨rfl, Or.inr (Or.inl ⟨hstate, hrenews rfl, trivial⟩)⟩
      | false =>
          simp only [renew, if_neg hstate, hrun, hlink, hnotices, id, Bool.false_eq_true, if_false]
          exact ⟨rfl, Or.inr (Or.inr ⟨hstate, trivial, Or.inl trivial⟩)⟩
    · simp only [renew, if_neg hstate, hrun, failed, hlink, hnotices]
      refine ⟨?_, Or.inr (Or.inr ⟨hstate, trivial, Or.inr trivial⟩)⟩
      unfold failureNotices
      split <;> rfl

/-- The outcomes of a departure. An agent without a record makes no attempt; any
    other is gone for its own part, whether or not its record could be removed. -/
theorem leave_cases (l : Link) (access : Access) (t : AgentTable) :
    registrations (l.leave access t).notices = [] ∧
    ((l.selfId = none ∧ (l.leave access t).table = t ∧ (l.leave access t).link = l) ∨
      (∃ id, l.selfId = some id ∧
        ((l.leave access t).table = t.delete [id] ∨ (l.leave access t).table = t) ∧
        (l.leave access t).link = { l with selfId := none, snapshot := .departed })) := by
  cases hself : l.selfId with
  | none =>
      simp only [leave, hself]
      exact ⟨rfl, Or.inl ⟨trivial, trivial, trivial⟩⟩
  | some id =>
      rcases Session.run_of_ends (fun _ => true) access
        (ends_leaveSession { l with selfId := none } id t access) with
        ⟨_, s, ⟨hlink, hnotices, htable⟩, hrun⟩ | ⟨e, s, ⟨hlink, hnotices⟩, hrun⟩
      · simp only [leave, hself, hrun, hlink, hnotices, htable, if_true]
        exact ⟨rfl, Or.inr ⟨id, rfl, Or.inl rfl, trivial⟩⟩
      · simp only [leave, hself, hrun, hlink, hnotices]
        exact ⟨rfl, Or.inr ⟨id, rfl, Or.inr trivial, trivial⟩⟩

section Frames

variable (l : Link) (moment : Moment) (access : Access) (t : AgentTable)

theorem name_pulse : (l.pulse moment access t).link.name = l.name := by
  rcases l.pulse_cases moment access t with ⟨_, _, _, hlink, _⟩ | ⟨_, _, _, hlink, _⟩ |
    ⟨_, _, hlink, _⟩ <;> rw [hlink] <;> rfl

theorem name_leave : (l.leave access t).link.name = l.name := by
  rcases (l.leave_cases access t).2 with ⟨_, _, hlink⟩ | ⟨_, _, _, hlink⟩ <;> rw [hlink]

/-- A renewal touches neither the name of the agent nor what it has published of its
    id and its shard. -/
theorem renew_frame : (l.renew moment access t).link.name = l.name ∧
    (l.renew moment access t).link.snapshot.agentId = l.snapshot.agentId ∧
    (l.renew moment access t).link.snapshot.assignment = l.snapshot.assignment := by
  rcases (l.renew_cases moment access t).2 with ⟨_, _, hlink⟩ | ⟨_, _, hlink⟩ |
    ⟨_, _, hlink | hlink⟩
  · rw [hlink]
    exact ⟨rfl, rfl, rfl⟩
  · rw [hlink]
    exact ⟨rfl, rfl, rfl⟩
  · rw [hlink]
    exact ⟨rfl, rfl, rfl⟩
  · rw [hlink]
    rcases l.afterFailure_snapshot moment.opened with hsnapshot | hsnapshot <;>
      rw [hsnapshot] <;> exact ⟨rfl, rfl, rfl⟩

end Frames

end Link

end OutboxCluster
