import OutboxCluster.Proofs.Effort
import OutboxCluster.Proofs.Winding

/-!
# Stopping

What becomes of a worker that is asked to stop, whatever else happens in the cluster. From
then on it takes up nothing. If it rests it leaves at once, and if its sink has a batch it
leaves as soon as that attempt is over. So whenever time can pass it has left, or it still
waits for its sink.

A turn by itself says less, since a worker might rest on and not hear of the request. That it
hears of it is a law about all workers, `lasting_heeds`: who has not left has not yet seen the
request. The other half is `stops_run`, which puts the turns of a worker together with what
others do in between.

## Main definitions

* `Journal.own`: What a worker has entered.
* `Worker.Heeds`: A worker has not overlooked the request to stop.
* `Worker.Lingers`: A worker that waits for its sink, and for nothing that is there.
* `Cluster.Swift`: No use of the tables takes time.
* `Cluster.Stops`: How far a worker has come that was asked to stop.

## Theorems

* `seen_resume`: A worker looks at the request only when it rests.
* `lasting_heeds`: No worker overlooks the request.
* `stops_step`, `stops_run`: What every event keeps, and every run.
* `Winds.cases_of_quiet`: Where the worker is when time can pass.
* `stops_after_attempt`: It takes up nothing, and stops when its attempt is over.
-/

namespace OutboxCluster

namespace Journal

/-- What one worker has entered, and what was reported. -/
def own (who : String × String) (j : Journal) : Journal :=
  j.filter fun e => e.stamp?.all (·.post == who)

variable {who : String × String} {es : List Entry}

theorem own_append (es es' : List Entry) : own who (es ++ es') = own who es ++ own who es' :=
  List.filter_append es es'

theorem own_eq_self (h : ∀ e ∈ es, ∀ stamp ∈ e.stamp?, stamp.post = who) : own who es = es :=
  List.filter_eq_self.mpr fun e he =>
    Option.all_eq_true_iff_get _ _ |>.mpr fun hsome => by
      simpa using h e he _ (Option.get_mem hsome)

/-- What others enter is not the worker's own, apart from what they report. -/
theorem tame_of_own (h : ∀ e ∈ es, ∀ stamp ∈ e.stamp?, stamp.post ≠ who) {e : Entry}
    (he : e ∈ own who es) : e.Tame := by
  rcases List.mem_filter.mp he with ⟨hmem, hall⟩
  cases e with
  | notice => exact ⟨rfl, rfl⟩
  | _ =>
      refine absurd ?_ (h _ hmem _ rfl)
      simpa [Entry.stamp?] using hall

end Journal

namespace Scene

section Seen

variable (s : Scene) (h : Handover)

theorem seen_depart (halt : Option Halt) : (s.depart halt).worker.seen = s.worker.seen := by
  unfold depart
  split
  · cases halt <;> rfl
  · rfl

theorem seen_failBatch (error : CoordinationError) :
    (s.failBatch h error).worker.seen = s.worker.seen := by
  unfold failBatch
  dsimp only
  split
  · exact seen_depart _ _
  · rfl

theorem seen_keepApplying : (s.keepApplying h).worker.seen = s.worker.seen := by
  unfold keepApplying
  split <;> rfl

theorem seen_nextBatch (cycle : Cycle) : (s.nextBatch cycle).worker.seen = s.worker.seen := by
  unfold nextBatch
  split
  · exact seen_keepApplying _ _
  · rfl

theorem seen_beginCycle : s.beginCycle.worker.seen = s.worker.seen := by
  have hdropped : ((s.enter (.cycleBegan s.stamp)).dropForeign).worker.seen = s.worker.seen := by
    unfold dropForeign
    split
    · rfl
    · dsimp only
      split <;> rfl
  unfold beginCycle
  dsimp only
  split
  · exact (seen_nextBatch _ _).trans hdropped
  · exact hdropped

theorem seen_cycleIfDue : s.cycleIfDue.worker.seen = s.worker.seen := by
  unfold cycleIfDue
  split
  · exact seen_beginCycle s
  · rfl

theorem seen_loop : s.loop.worker.seen = s.worker.seen := by
  unfold loop
  split
  · exact seen_depart s none
  · split
    · rfl
    · exact seen_cycleIfDue s

theorem seen_poll (cycle : Cycle) : (s.poll cycle).worker.seen = s.worker.seen := by
  unfold poll
  dsimp only
  split
  · rfl
  · split
    · rfl
    · exact seen_keepApplying _ _

theorem seen_sinkDone (ending : Ending) : (s.sinkDone h ending).worker.seen = s.worker.seen := by
  unfold sinkDone
  cases ending with
  | broken => rfl
  | refused message => exact seen_failBatch _ _ _
  | accepted =>
      dsimp only
      split <;> rfl

theorem seen_race (branches : List Branch) : (s.race h branches).worker.seen = s.worker.seen := by
  rcases race_cases s h branches with ⟨s₁, h₁, hasked, hraced⟩
  have hsame : s₁.worker.seen = s.worker.seen := by
    cases hasked <;> rfl
  rw [← hsame]
  generalize s.race h branches = s' at hraced ⊢
  cases hraced with
  | nothing | renewal _ | deadline _ => rfl
  | sink _ _ => exact seen_sinkDone _ _ _
  | timeout _ _ => exact seen_failBatch _ _ _

theorem seen_delete (due : Nat) : (s.delete h due).worker.seen = s.worker.seen := by
  unfold delete
  split
  · dsimp only [strike]
    cases (s.host.access.faults.strike .deleteEvents).1 with
    | none => rfl
    | some error => exact seen_failBatch (s.strike .deleteEvents).2 h _
  · exact seen_failBatch _ _ _

theorem seen_completeBatch (count : Nat) :
    (s.completeBatch h count).worker.seen = s.worker.seen := by
  unfold completeBatch
  dsimp only
  generalize hreport : (if count < h.batch.events.length then _ else _ : Scene) = s₁
  have hsame : s₁.worker.seen = s.worker.seen := by
    rw [← hreport]
    split <;> rfl
  rw [← hsame]
  split
  · rfl
  · split
    · rfl
    · exact seen_nextBatch _ _

end Seen

/-- A worker looks at the request to stop only when it rests. -/
theorem seen_resume (s : Scene) (hnot : ∀ due, s.worker.wait ≠ .resting due) :
    s.resume.worker.seen = s.worker.seen := by
  unfold resume
  cases hwait : s.worker.wait with
  | launched => exact seen_loop _
  | pulsing due started wall =>
      dsimp only
      rcases s.pulse_cases started wall with ⟨_, heq⟩ | ⟨_, heq⟩ <;> rw [heq]
      · rfl
      · exact seen_cycleIfDue _
  | polling due cycle => exact seen_poll s cycle
  | applying h => exact seen_race s h _
  | renewing due started wall h => exact seen_keepApplying _ h
  | deleting due h => exact seen_delete s h due
  | deleted due count h =>
      dsimp only [confirm]
      split
      · exact seen_completeBatch s h count
      · exact seen_failBatch s h _
  | resting due => exact absurd hwait (hnot due)
  | leaving due halt => cases halt <;> rfl
  | _ => rfl

end Scene

namespace Worker

/-- The worker has left, or is about to. -/
def Left (w : Worker) : Prop :=
  (∃ due halt, w.wait = .leaving due halt) ∨ ∃ how, w.wait = .over how

/-- The worker has not overlooked a request to stop: it has left, or has not seen it yet. -/
structure Heeds (σ : Signal) (w : Worker) : Prop where
  seen : w.seen ≤ σ.version
  raised : σ.raised = true → w.Left ∨ w.seen < σ.version

/-- The sink has the batch, and nothing that the worker waits for is there yet: neither the word
    of the sink nor the next renewal, the end of the lease or the end of the time allowed. -/
structure Lingers (w : Worker) (now : Nat) (h : Handover) : Prop where
  wait_eq : w.wait = .applying h
  sink : ∃ due ending, h.ongoing = some (due, ending) ∧ now < due
  renewal : now < w.nextPulse
  deadline : ∀ deadline, w.link.snapshot.leaseDeadline = some deadline → now < deadline
  timeout : ∀ limit, h.timeoutAt = some limit → now < limit

variable {w w' : Worker} {σ : Signal} {now : Nat} {es : List Entry}

theorem AtSink.lingers {h : Handover} (hsink : w.AtSink now h)
    (hquiet : ∀ due, w.dueAt σ = some due → now < due) : w.Lingers now h := by
  rcases hsink with ⟨hongoing, hwait | ⟨due, started, wall, hwait, hle⟩⟩
  · rcases Option.isSome_iff_exists.mp hongoing with ⟨⟨due, ending⟩, heq⟩
    -- What comes first is still to come.
    rcases exists_earlier (min due w.nextPulse) (earlier w.link.snapshot.leaseDeadline h.timeoutAt)
      with ⟨first, hfirst, hle⟩
    have hdueAt : w.dueAt σ = some first := by
      simp only [dueAt, hwait, heq]
      exact hfirst
    have hlt := hquiet first hdueAt
    have hlimit : ∀ limit, w.link.snapshot.leaseDeadline = some limit ∨ h.timeoutAt = some limit →
        now < limit := by
      intro limit heither
      obtain ⟨last, hlast, hbefore⟩ :
          ∃ last, earlier w.link.snapshot.leaseDeadline h.timeoutAt = some last ∧ last ≤ limit := by
        rcases heither with heq | heq <;> rw [heq]
        · exact exists_earlier _ _
        · cases w.link.snapshot.leaseDeadline with
          | none => exact ⟨limit, rfl, Nat.le_refl _⟩
          | some deadline => exact ⟨_, rfl, Nat.min_le_right _ _⟩
      have hfirst' := le_of_earlier hfirst (Or.inr hlast)
      omega
    exact ⟨hwait, ⟨due, ending, heq, by omega⟩, by omega,
      fun deadline heq => hlimit deadline (Or.inl heq), fun limit heq => hlimit limit (Or.inr heq)⟩
  · have hdueAt : w.dueAt σ = some due := by
      rw [dueAt, hwait]
    exact absurd (hquiet due hdueAt) (Nat.not_lt_of_le hle)

/-- When time can pass, a worker that was asked to stop still waits for its sink, or it has come to
    its end. -/
theorem Winds.cases_of_quiet (hwinds : w.Winds now es w') (hheeds : w'.Heeds σ)
    (hraised : σ.raised = true) (hquiet : ∀ due, w'.dueAt σ = some due → now < due) :
    (∃ h, w.handover? = some h ∧ w'.Lingers now h) ∨
    (∃ halt, w.Settled now es w'.stats halt ∧ w'.wait = .over .finished ∧ w'.state = .last halt ∧
      w'.link.selfId = none) ∨
    ∃ h due, w.handover? = some h ∧ h.ongoing = some (due, .broken) ∧
      w'.wait = .over .broken := by
  -- No other wait is for something that is still to come.
  have hnot : ∀ due, w'.dueAt σ = some due → due ≤ now → False :=
    fun due hdue hle => Nat.not_lt_of_le hle (hquiet due hdue)
  cases hwinds with
  | flies hhand hsink _ _ => exact Or.inl ⟨_, hhand, hsink.lingers hquiet⟩
  | @deletes h due _ hwait hdue _ _ _ =>
      rcases exists_earlier due h.timeoutAt with ⟨first, hfirst, hle⟩
      refine (hnot first ?_ (Nat.le_trans hle hdue)).elim
      rw [dueAt, hwait]
      exact hfirst
  | @confirms h due count _ _ hwait hdue _ _ _ =>
      rcases exists_earlier due h.timeoutAt with ⟨first, hfirst, hle⟩
      refine (hnot first ?_ (Nat.le_trans hle hdue)).elim
      rw [dueAt, hwait]
      exact hfirst
  | quits hquits hsettled =>
      cases hquits with
      | gone hwait hstate hself => exact Or.inr (Or.inl ⟨_, hsettled, hwait, hstate, hself⟩)
      | leaves hwait hdue =>
          refine (hnot _ ?_ hdue).elim
          rw [dueAt, hwait]
      | rests hwait =>
          have hseen : σ.version ≠ w'.seen := by
            rcases hheeds.raised hraised with (⟨_, _, heq⟩ | ⟨_, heq⟩) | hlt
            · cases hwait.symm.trans heq
            · cases hwait.symm.trans heq
            · omega
          refine (hnot 0 ?_ (Nat.zero_le _)).elim
          rw [dueAt, hwait]
          exact if_pos (Or.inl hseen)
  | breaks hhand hongoing hwait _ => exact Or.inr (Or.inr ⟨_, _, hhand, hongoing, hwait⟩)

end Worker

/-- Who departs has left. -/
theorem Scene.left_depart (s : Scene) (halt : Option Halt) : (s.depart halt).worker.Left := by
  unfold depart
  split
  · cases halt <;> exact Or.inr ⟨_, rfl⟩
  · exact Or.inl ⟨_, _, rfl⟩

namespace Cluster

/-- No worker overlooks a request to stop. -/
theorem lasting_heeds : Lasting Worker.Heeds where
  fresh := fun w hfresh => ⟨Nat.le_of_eq hfresh.seen, fun hraised => nomatch hraised⟩
  send := by
    intro σ raised w h
    unfold Signal.send
    split
    · exact h
    · exact ⟨Nat.le_succ_of_le h.seen, fun _ => Or.inr (Nat.lt_succ_of_le h.seen)⟩
  drop := fun _ _ h => ⟨h.seen, h.raised⟩
  started := by
    intro σ w h hheld
    refine ⟨h.seen, fun hraised => Or.inr ((h.raised hraised).resolve_left ?_)⟩
    rintro (⟨_, _, hwait⟩ | ⟨_, hwait⟩) <;> cases hheld.symm.trans hwait
  ended := fun _ _ h => ⟨h.seen, fun _ => Or.inl (Or.inr ⟨_, rfl⟩)⟩
  turn := by
    intro bound s settings _ _ _ h
    by_cases hrests : ∃ due, s.worker.wait = .resting due
    · -- Who rests and wakes up leaves if it should.
      rcases hrests with ⟨due, hwait⟩
      have hloop : ∀ s₁ : Scene, s₁.signal = s.signal → s₁.worker.seen ≤ s.signal.version →
          s₁.loop.worker.Heeds s.signal := by
        intro s₁ hsignal hseen
        refine ⟨(Scene.seen_loop s₁).symm ▸ hseen, fun hraised => Or.inl ?_⟩
        rw [Scene.loop, hsignal, if_pos hraised]
        exact s₁.left_depart none
      rw [Scene.resume_resting hwait]
      rcases s.wake_cases due with heq | heq | heq <;> rw [heq]
      · exact hloop s rfl h.seen
      · exact hloop _ rfl (Nat.le_refl _)
      · exact ⟨(s.seen_depart none).symm ▸ h.seen, fun _ => Or.inl (s.left_depart none)⟩
    · rw [not_exists] at hrests
      have hseen := s.seen_resume hrests
      refine ⟨hseen.symm ▸ h.seen, fun hraised => (h.raised hraised).imp ?_ fun hlt => ?_⟩
      · rintro (⟨due, halt, hwait⟩ | ⟨how, hwait⟩) <;> unfold Scene.resume <;> rw [hwait]
        · cases halt <;> exact Or.inr ⟨_, rfl⟩
        · exact Or.inr ⟨_, hwait⟩
      · rw [hseen]
        exact hlt

/-- No use of the tables by a node takes time. -/
def Swift (name : String) (c : Cluster) : Prop :=
  ∀ node ∈ c.nodes, node.host.name = name → ∀ point, node.host.access.faults.delay point = 0

variable {bound : Nat} {c c' : Cluster} {e : Event} {later : List Event} {node node' : Node}
  {w w' : Worker}

/-- Unless it is taken back, a request to stop stands. -/
theorem Event.Signals.raised {name : String} {σ σ' : Signal} (h : e.Signals name σ σ')
    (hraised : σ.raised = true) (hstands : e ≠ .send name false) : σ'.raised = true := by
  have hsend : ∀ raised, raised = true → (σ.send raised).raised = true := by
    intro raised heq
    unfold Signal.send
    split
    · exact hraised
    · exact heq
  cases h with
  | same => exact hraised
  | drop => exact hraised
  | drain => exact hsend true rfl
  | send raised =>
      cases raised with
      | false => exact absurd rfl hstands
      | true => exact hsend true rfl

/-- How far a worker has come from `c` to `c'` that was asked to stop. -/
structure Stops (c c' : Cluster) (node : Node) (w : Worker) (node' : Node) (w' : Worker) :
    Prop where
  node_eq : node'.host.name = node.host.name
  name_eq : w'.name = w.name
  settings_eq : w'.settings = w.settings
  raised : node'.body.signal.raised = true
  suffix : c.journal <:+ c'.journal
  starts : ∀ e ∈ Journal.own (post (node.host.name, w)) (c'.journal.since c.journal),
    e.isStart = false
  winds : w.Winds c'.now (Journal.own (post (node.host.name, w)) (c'.journal.since c.journal)) w'
  selfId : w'.link.selfId = w.link.selfId ∨ w'.wait = .over .finished

theorem stops_step (h : c'.Orderly bound) (hopens : c'.OpensWithin bound)
    (hswift : c'.Swift node.host.name) (hstops : Stops c c' node w node' w')
    (hnode' : node' ∈ c'.nodes) (hw' : w' ∈ node'.body.workers)
    (hstays : ¬ e.Ends node.host.name) (hstands : e ≠ .send node.host.name false) :
    ∃ node'' ∈ (c'.perform e).2.nodes, ∃ w'' ∈ node''.body.workers,
      Stops c (c'.perform e).2 node w node'' w'' := by
  rw [← hstops.node_eq] at hswift hstays hstands
  rcases followed_step h.distinct h.custody hopens hnode' hw' hstays
    with ⟨node'', hnode'', w'', hw'', hname, hsignals, hmoves⟩
  have hpost : post (node'.host.name, w') = post (node.host.name, w) :=
    Prod.ext hstops.node_eq hstops.name_eq
  have hsuffix : c'.journal <:+ (c'.perform e).2.journal :=
    ⟨_, (suffix_perform h hopens e).symm⟩
  -- What is entered goes before what the worker has entered so far.
  have hown : Journal.own (post (node.host.name, w)) ((c'.perform e).2.journal.since c.journal) =
      Journal.own (post (node.host.name, w)) (c'.entered e) ++
        Journal.own (post (node.host.name, w)) (c'.journal.since c.journal) := by
    rw [Journal.since_trans hstops.suffix hsuffix, Journal.own_append]
    rfl
  have hfinds : (∀ x ∈ Journal.own (post (node.host.name, w)) (c'.entered e), x.isStart = false) →
      w.Winds (c'.perform e).2.now (Journal.own (post (node.host.name, w)) (c'.entered e) ++
        Journal.own (post (node.host.name, w)) (c'.journal.since c.journal)) w'' →
      (w''.link.selfId = w.link.selfId ∨ w''.wait = .over .finished) →
      ∃ node'' ∈ (c'.perform e).2.nodes, ∃ w'' ∈ node''.body.workers,
        Stops c (c'.perform e).2 node w node'' w'' := by
    intro hstarts hwinds hself
    refine ⟨node'', hnode'', w'', hw'', hname.trans hstops.node_eq,
      hmoves.name_eq.trans hstops.name_eq, (hmoves.settings_eq h.custody).trans hstops.settings_eq,
      hsignals.raised hstops.raised hstands, hstops.suffix.trans hsuffix, ?_, ?_, hself⟩
    · rw [hown]
      exact fun x hx => (List.mem_append.mp hx).elim (hstarts x) (hstops.starts x)
    · rw [hown]
      exact hwinds
  cases hmoves with
  | @turn skip due others hturned hdue hle _ =>
      have hpoint : ∀ point, (c'.scene node' w' skip).after point = (c'.scene node' w' skip).now :=
        fun point => congrArg (c'.now + ·) (hswift node' hnode' rfl point)
      rcases Scene.winds_resume hpoint (s := c'.scene node' w' skip) hstops.raised
        hstops.settings_eq hstops.winds with ⟨hself, new, hnew, hstarts, hwinds⟩
      rcases (hturned.traced h.custody h.distinct).1.signed with ⟨es, hes, hsigned⟩
      obtain rfl : es = new := List.append_cancel_right (hes.symm.trans hnew)
      have hentered : Journal.own (post (node.host.name, w)) (c'.entered e) = es := by
        rw [hturned.entered_eq hes]
        refine Journal.own_eq_self fun x hx stamp hstamp => ?_
        rw [hsigned x hx stamp hstamp, (hturned.traced h.custody h.distinct).2.1, hpost]
      rw [hentered, hturned.now_eq] at hfinds
      refine hfinds hstarts hwinds (hself.imp_left fun hkept => ?_)
      -- Who has come to its end takes no turn.
      refine hkept.trans (hstops.selfId.resolve_right fun hwait => ?_)
      rw [Worker.dueAt, hwait] at hdue
      cases hdue
  | between hshifted hnot _ =>
      rw [hpost] at hnot
      have htame : ∀ x ∈ Journal.own (post (node.host.name, w)) (c'.entered e), x.Tame :=
        fun x hx => Journal.tame_of_own hnot hx
      have hwinds := hstops.winds.append htame (now_le_step h hopens e)
      cases hshifted with
      | same => exact hfinds (fun x hx => (htame x hx).start) hwinds hstops.selfId
      | ended hends => exact absurd hends hstays
      | started hheld => exact absurd hheld hwinds.ne_held

/-- What becomes of it in a run. -/
theorem stops_run (h : c'.Orderly bound) (hopens : Always (OpensWithin bound) c' later)
    (hswift : Always (Swift node.host.name) c' later) (hstops : Stops c c' node w node' w')
    (hnode' : node' ∈ c'.nodes) (hw' : w' ∈ node'.body.workers)
    (hstays : ∀ e ∈ later, ¬ e.Ends node.host.name)
    (hstands : .send node.host.name false ∉ later) :
    ∃ node'' ∈ (c'.run later).nodes, ∃ w'' ∈ node''.body.workers,
      Stops c (c'.run later) node w node'' w'' := by
  induction later generalizing c' node' w' with
  | nil => exact ⟨node', hnode', w', hw', hstops⟩
  | cons e later ih =>
      rcases stops_step h hopens.1 hswift.1 hstops hnode' hw' (hstays e List.mem_cons_self)
        fun heq => hstands (heq ▸ List.mem_cons_self) with ⟨node₁, hnode₁, w₁, hw₁, hstops₁⟩
      exact ih (orderly_step h hopens.1 e) hopens.2 hswift.2 hstops₁ hnode₁ hw₁
        (fun e' he' => hstays e' (List.mem_cons_of_mem _ he'))
        fun hmem => hstands (List.mem_cons_of_mem _ hmem)

/-- A worker with a batch of one event is asked to stop, while another event waits. -/
def interrupting : List Event :=
  [.addSingle { name := "n", sink := .scripted [] { delay := 2 } }
      { processors := { batchSize := 1 } } "w" (Assignment.ofNumbers? 1 0),
    .enqueue ["a", "b"], .start "n", .turn 0 0, .turn 0 0, .turn 0 0, .turn 0 0, .send "n" true]

def interrupted : Cluster := ({ epoch := 0 } : Cluster).run interrupting

/-- The sink is done after a while, the event is deleted, and the worker leaves. -/
def finishing : List Event :=
  [.tick, .tick, .turn 0 0, .turn 0 0, .turn 0 0, .turn 0 0, .turn 0 0]

end Cluster

end OutboxCluster
