import OutboxCluster.Cluster.Event
import OutboxCluster.Proofs.Session

/-!
# What is Never Reported

A notice that a batch was given up because the shard may be lost (`ownershipLost`) is made
at one point of a turn and nowhere else. Sessions report what has become of agents, and the
control of a node what has become of the node. So whoever counts these notices in the
journal has counted the batches that were given up.

The law of the sessions is about their text alone, and about any kind of notice. It does
not matter where one of them stops, so it is enough to go through what each of its reports
is about.

## Main definitions

* `Notice.isLoss`: A notice that a batch was given up.
* `Entry.lost?`, `Journal.losses`: The batches that were given up.
* `SessionM.Reports`: A computation that makes only certain notices.

## Theorems

* `Link.reports_pulseSession`, `Link.reports_renewSession`: What the sessions report.
* `Link.lossless_pulse`, `Link.lossless_renew`, `Link.lossless_leave`: The attempts.
* `Cluster.losses_perform`: The events that are no turns.
-/

namespace OutboxCluster

/-- Whether a notice tells that a batch was given up because the shard may be lost. -/
def Notice.isLoss : Notice → Bool
  | .ownershipLost _ => true
  | _ => false

/-- The size of a batch that was given up because the shard may be lost, if the entry tells
    of one. -/
def Entry.lost? : Entry → Option Nat
  | .notice (.ownershipLost events) => some events
  | _ => none

namespace Journal

/-- The sizes of the batches that were given up because the shard may be lost. -/
def losses (j : Journal) : List Nat := j.filterMap Entry.lost?

theorem losses_append (es j : Journal) : losses (es ++ j) = losses es ++ losses j :=
  List.filterMap_append

theorem losses_addNotices {j : Journal} {ns : List Notice} (h : ∀ n ∈ ns, n.isLoss = false) :
    (j.addNotices ns).losses = j.losses := by
  have hnone : losses (ns.map Entry.notice).reverse = [] := by
    refine List.filterMap_eq_nil_iff.mpr (fun e he => ?_)
    rcases List.mem_map.mp (List.mem_reverse.mp he) with ⟨n, hn, rfl⟩
    have hother := h n hn
    cases n with
    | ownershipLost events => exact nomatch hother
    | _ => rfl
  rw [addNotices, losses_append, hnone, List.nil_append]

end Journal

/-- What was reported since `s` are notices of which `p` holds. -/
def Session.Adds (p : Notice → Prop) (s s' : Session) : Prop :=
  ∃ ns, s'.notices = s.notices ++ ns ∧ ∀ n ∈ ns, p n

namespace Session.Adds

variable {p : Notice → Prop} {s s' s'' : Session}

theorem of_eq (h : s'.notices = s.notices) : s.Adds p s' :=
  ⟨[], by rw [h, List.append_nil], fun _ hn => absurd hn List.not_mem_nil⟩

theorem refl (s : Session) : s.Adds p s := of_eq rfl

theorem trans (h : s.Adds p s') (h' : s'.Adds p s'') : s.Adds p s'' := by
  rcases h with ⟨ns, hns, hall⟩
  rcases h' with ⟨ns', hns', hall'⟩
  exact ⟨ns ++ ns', by rw [hns', hns, List.append_assoc],
    List.forall_mem_append.mpr ⟨hall, hall'⟩⟩

end Session.Adds

namespace SessionM

variable {α β : Type} {p : Notice → Prop}

/-- The computation reports only notices of which `p` holds, wherever it stops. -/
def Reports (p : Notice → Prop) (act : SessionM α) : Prop :=
  ∀ s : Session, act.Ends s (fun _ => s.Adds p) (fun _ => s.Adds p)

theorem reports_pure (a : α) : Reports p (pure a) := fun s => ends_pure (Session.Adds.refl s)

theorem reports_throw (e : Interruption) : Reports p (throw e : SessionM α) :=
  fun s => ends_throw (Session.Adds.refl s)

theorem Reports.bind {act : SessionM α} {next : α → SessionM β} (h : act.Reports p)
    (hnext : ∀ a, (next a).Reports p) : (act >>= next).Reports p :=
  fun s => ends_bind ((h s).imp
    (fun a s' hs' => (hnext a s').imp (fun _ _ => hs'.trans) fun _ _ => hs'.trans)
    fun _ _ hs' => hs')

/-- What is reported on the way is all that a law about notices has to look at. -/
theorem Reports.ends {act : SessionM α} (h : act.Reports p) {s : Session}
    {done : α → Session → Prop} {failed : Interruption → Session → Prop}
    (hdone : ∀ a s', s.Adds p s' → done a s') (hfailed : ∀ e s', s.Adds p s' → failed e s') :
    act.Ends s done failed :=
  (h s).imp hdone hfailed

/-- What is changed is not what was reported. -/
theorem reports_modify {f : Session → Session} (h : ∀ s, (f s).notices = s.notices) :
    Reports p (modify f : SessionM PUnit) :=
  fun s => ends_modify (Session.Adds.of_eq (h s))

theorem reports_report {n : Notice} (h : p n) : (SessionM.report n).Reports p :=
  fun _ => ends_report ⟨[n], rfl, List.forall_mem_singleton.mpr h⟩

theorem reports_forM {act : α → SessionM PUnit} {l : List α} (h : ∀ a ∈ l, (act a).Reports p) :
    (l.forM act).Reports p := by
  induction l with
  | nil => exact reports_pure PUnit.unit
  | cons a l ih =>
      rw [List.forM_eq_forM, List.forM_cons]
      exact (h a List.mem_cons_self).bind fun _ => ih fun b hb => h b (List.mem_cons_of_mem a hb)

theorem reports_use (point : UsePoint) : (use point).Reports p :=
  fun _ => ends_use (fun _ => Session.Adds.of_eq rfl) (fun _ _ => Session.Adds.of_eq rfl)

theorem reports_begin : begin.Reports p :=
  fun _ => ends_begin (fun _ => Session.Adds.of_eq rfl) (fun _ _ => Session.Adds.of_eq rfl)

theorem reports_list : list.Reports p :=
  fun _ => ends_list (fun _ _ _ => Session.Adds.of_eq rfl) (fun _ _ => Session.Adds.of_eq rfl)

theorem reports_create (agent : Agent) : (create agent).Reports p :=
  fun _ => ends_create (fun _ => Session.Adds.of_eq rfl) (fun _ _ => Session.Adds.of_eq rfl)

theorem reports_update (agent : Agent) : (update agent).Reports p :=
  fun _ => ends_update (fun _ => Session.Adds.of_eq rfl) (fun _ => Session.Adds.of_eq rfl)
    (fun _ _ => Session.Adds.of_eq rfl)

theorem reports_delete (ids : List Int) : (delete ids).Reports p :=
  fun _ => ends_delete (fun _ => Session.Adds.of_eq rfl) (fun _ _ => Session.Adds.of_eq rfl)

theorem reports_remember (id : Option Int) : (remember id).Reports p :=
  fun _ => ends_remember (Session.Adds.of_eq rfl)

end SessionM

namespace Link

open SessionM

section Sessions

variable (l : Link) (now : Int) {p : Notice → Prop}

/-- A record of which nothing can be reported stops the pulse. -/
theorem reports_reclaim {expired : List Agent}
    (h : ∀ a ∈ expired, ∀ n, l.reclaimNotice? now a = some n → p n) :
    (l.reclaim now expired).Reports p := by
  unfold reclaim
  cases expired with
  | nil => exact reports_pure _
  | cons a as =>
      refine (reports_forM fun b hb => ?_).bind fun _ => reports_delete _
      unfold announce
      cases hnotice : l.reclaimNotice? now b with
      | none => exact reports_throw _
      | some n => exact reports_report (h b hb n hnotice)

theorem reports_register (live : List Agent) (hagain : ∀ id, p (.registeringAgain id))
    (hnew : ∀ id, p (.registered id)) : (l.register now live).Reports p := by
  -- Whoever registers does the same, whether it had an id before or not.
  have hcreate : ∀ old : SessionM PUnit, old.Reports p → SessionM.Reports p (do
      old
      let created ← create (l.newRecord now)
      report (.registered created.id)
      remember (some created.id)
      return (created, live ++ [created])) := fun old hold =>
    hold.bind fun _ => (reports_create _).bind fun created =>
      (reports_report (hnew created.id)).bind fun _ =>
        (reports_remember _).bind fun _ => reports_pure _
  unfold register
  cases live.find? fun a => l.selfId = some a.id with
  | some me => exact reports_pure _
  | none =>
      cases l.selfId with
      | none => exact hcreate _ (reports_pure ⟨⟩)
      | some old => exact hcreate _ (reports_report (hagain old))

theorem reports_decide (me : Agent) (live : List Agent) (h : ∀ id peer, p (.conflict id peer)) :
    (l.decide me live).Reports p := by
  unfold decide
  cases l.configured with
  | none => exact reports_pure _
  | some configured =>
      dsimp only
      rcases decideStatic me configured (live.filter (·.id ≠ me.id)) with ⟨me', _ | peer⟩
      · exact Reports.bind (reports_modify fun _ => rfl) fun _ => reports_pure me'
      · have hset : SessionM.Reports p (do
            modify fun s => { s with link.conflictReported := true }
            return me' : SessionM Agent) :=
          Reports.bind (reports_modify fun _ => rfl) fun _ => reports_pure me'
        dsimp only
        split
        · exact (reports_report (h me'.id peer.id)).bind fun _ => hset
        · exact hset

theorem reports_settle (me : Agent) : (settle me).Reports p := by
  unfold settle
  refine (reports_update me).bind fun found => ?_
  cases found with
  | false => exact (reports_remember none).bind fun _ => (reports_throw _).bind fun _ =>
      (reports_use _).bind fun _ => reports_pure _
  | true => exact (reports_use _).bind fun _ => reports_pure _

theorem reports_pulseSession (hreclaim : ∀ a n, l.reclaimNotice? now a = some n → p n)
    (hagain : ∀ id, p (.registeringAgain id)) (hnew : ∀ id, p (.registered id))
    (hconflict : ∀ id peer, p (.conflict id peer)) : (l.pulseSession now).Reports p := by
  unfold pulseSession
  refine reports_begin.bind fun _ => reports_list.bind fun agents => ?_
  exact (l.reports_reclaim now fun a _ => hreclaim a).bind fun _ =>
    (l.reports_register now _ hagain hnew).bind fun enrolled =>
      (l.reports_decide enrolled.1 enrolled.2 hconflict).bind fun _ => reports_settle _

theorem reports_renewSession : (l.renewSession now).Reports p := by
  unfold renewSession
  cases l.selfId with
  | none => exact reports_pure _
  | some id =>
      refine reports_begin.bind fun _ => reports_list.bind fun agents => ?_
      cases agents.find? (·.id = id) with
      | none => exact reports_pure _
      | some me =>
          dsimp only
          split
          · exact reports_pure _
          · refine (reports_update _).bind fun found => ?_
            cases found with
            | false => exact reports_pure _
            | true => exact (reports_use _).bind fun _ => reports_pure _

theorem reports_leaveSession (id : Int) : (leaveSession id).Reports p :=
  reports_begin.bind fun _ => (reports_delete _).bind fun _ => reports_use _

/-- So nothing else is found in what an attempt has reported. -/
theorem reports_run {α : Type} {act : SessionM α} (h : act.Reports p) (keeps : α → Bool)
    (l : Link) (access : Access) (t : AgentTable) :
    ∀ n ∈ (Session.run act keeps l access t).2.notices, p n := by
  rcases Session.run_of_ends keeps access (h { link := l, access, table := t }) with
    ⟨_, s, ⟨ns, hs, hns⟩, hrun⟩ | ⟨_, s, ⟨ns, hs, hns⟩, hrun⟩ <;>
    rw [hrun] <;> dsimp only at hs ⊢ <;> rw [hs, List.nil_append] <;> exact hns

end Sessions

variable {l : Link} {access : Access} {t : AgentTable}

theorem lossless_failed {a : Attempt} (h : ∀ n ∈ a.notices, n.isLoss = false) (now : Nat) :
    ∀ n ∈ (failed a now).notices, n.isLoss = false := by
  refine List.forall_mem_append.mpr ⟨h, ?_⟩
  unfold failureNotices
  split <;> simp [Notice.isLoss]

theorem lossless_pulse (moment : Moment) :
    ∀ n ∈ (l.pulse moment access t).notices, n.isLoss = false := by
  have hreclaim : ∀ a n, l.reclaimNotice? moment.wall a = some n → n.isLoss = false := by
    intro a n hnotice
    unfold reclaimNotice? at hnotice
    split at hnotice
    · rw [← Option.some.inj hnotice]
      rfl
    · rcases Option.map_eq_some_iff.mp hnotice with ⟨_, _, rfl⟩
      rfl
  have hsession : (l.pulseSession moment.wall).Reports (·.isLoss = false) :=
    l.reports_pulseSession moment.wall hreclaim (fun _ => rfl) (fun _ => rfl) fun _ _ => rfl
  -- Even a session that breaks down has reported only what its steps report.
  have hrun := reports_run hsession (fun _ => true) l access t
  unfold pulse
  split
  · rename_i me a heq
    rw [heq] at hrun
    refine List.forall_mem_append.mpr ⟨hrun, ?_⟩
    unfold pulseNotices
    refine List.forall_mem_append.mpr ⟨?_, ?_⟩ <;> split <;> simp [Notice.isLoss]
  · rename_i e a heq
    rw [heq] at hrun
    exact lossless_failed hrun _
  · rename_i a heq
    rw [heq] at hrun
    exact hrun

theorem lossless_renew (moment : Moment) :
    ∀ n ∈ (l.renew moment access t).notices, n.isLoss = false := by
  have hsession : (l.renewSession moment.wall).Reports (·.isLoss = false) :=
    l.reports_renewSession moment.wall
  have hrun := reports_run hsession id l access t
  unfold renew
  split
  · exact fun _ hn => absurd hn List.not_mem_nil
  · split
    · rename_i a heq
      rw [heq] at hrun
      exact hrun
    · rename_i a heq
      rw [heq] at hrun
      exact List.forall_mem_append.mpr ⟨hrun, by decide⟩
    · rename_i e a heq
      rw [heq] at hrun
      exact lossless_failed hrun _

theorem lossless_leave : ∀ n ∈ (l.leave access t).notices, n.isLoss = false := by
  unfold leave
  split
  · exact fun _ hn => absurd hn List.not_mem_nil
  · rename_i id _
    have hsession : (leaveSession id).Reports (·.isLoss = false) := reports_leaveSession id
    have hrun := reports_run hsession (fun _ => true) { l with selfId := none } access t
    refine List.forall_mem_append.mpr ⟨hrun, List.forall_mem_singleton.mpr ?_⟩
    split <;> rfl

end Link

namespace Strategy

variable {ω : Type} (s : Strategy ω)

theorem lossless_start (make : Validated → Option Assignment → ω) :
    ∀ n ∈ (s.start make).notices, n.isLoss = false := by
  unfold start
  split
  · exact List.forall_mem_singleton.mpr rfl
  · split
    · exact fun _ hn => absurd hn List.not_mem_nil
    · split
      · exact fun _ hn => absurd hn List.not_mem_nil
      · dsimp only
        split
        · exact fun _ hn => absurd hn List.not_mem_nil
        · exact List.forall_mem_singleton.mpr rfl

theorem lossless_drain : ∀ n ∈ s.drain.2, n.isLoss = false := by
  unfold drain
  split
  · exact fun _ hn => absurd hn List.not_mem_nil
  · exact List.forall_mem_singleton.mpr rfl

/-- A step that has failed says which resource was not closed. -/
theorem lossless_closeAll (steps : List (String × Except CoordinationError Unit)) :
    ∀ n ∈ (Closer.closeAll steps).notices, n.isLoss = false := by
  unfold Closer.closeAll
  refine List.foldlRecOn steps _ (motive := fun c : Closer => ∀ n ∈ c.notices, n.isLoss = false)
    (fun _ hn => absurd hn List.not_mem_nil) fun c h step _ => ?_
  rcases step with ⟨resource, e | _⟩
  · exact List.forall_mem_append.mpr ⟨h, List.forall_mem_singleton.mpr rfl⟩
  · exact h

theorem lossless_stop (faulty : ω → Bool)
    (closeFinders closeAgents : Except CoordinationError Unit) :
    ∀ n ∈ (s.stop faulty closeFinders closeAgents).notices, n.isLoss = false := by
  unfold stop
  refine List.forall_mem_append.mpr ⟨List.forall_mem_append.mpr ⟨?_, lossless_closeAll _⟩, ?_⟩
  · split
    · exact fun _ hn => absurd hn List.not_mem_nil
    · unfold Scheduler.shutdownNotices
      split
      · exact fun _ hn => absurd hn List.not_mem_nil
      · exact List.forall_mem_singleton.mpr rfl
  · refine List.forall_mem_singleton.mpr ?_
    split <;> rfl

end Strategy

namespace Cluster

variable {c : Cluster}

/-- Only a turn gives up a batch. -/
theorem losses_perform {e : Event} (hturn : ∀ n i skip, e ≠ .turn n i skip) :
    (c.perform e).2.journal.losses = c.journal.losses := by
  -- Only turns report losses; the other notices are those of a strategy.
  cases e with
  | turn n i skip => exact absurd rfl (hturn n i skip)
  | addSingle host settings agent configured =>
      dsimp only [perform, Cluster.addSingle]
      cases settings.validate <;> rfl
  | start name =>
      dsimp only [perform, Cluster.start]
      split
      · rfl
      · split
        · exact Journal.losses_addNotices (Strategy.lossless_start _ _)
        · rfl
  | drain name =>
      dsimp only [perform, Cluster.drain]
      split
      · exact Journal.losses_addNotices (Strategy.lossless_drain _)
      · rfl
  | stop name =>
      dsimp only [perform, Cluster.stop]
      split
      · exact Journal.losses_addNotices (Strategy.lossless_stop _ _ _ _)
      · rfl
  | tick =>
      dsimp only [perform]
      split <;> rfl
  | _ => rfl

end Cluster

end OutboxCluster
