import Mathlib.Data.List.Induction
import OutboxCluster.Cluster.Observe
import OutboxCluster.Proofs.Crew
import OutboxCluster.Proofs.Failures

/-!
# The Life of a Strategy

A strategy is started, waited for, asked to stop and stopped by its host, in any order and
as often as the host likes. Meanwhile its workers take their turns, and any of them may come
to its end, give up, or break down. The law is what each request answers, and that it leaves
either what there was or all that it promises.

What a request answers depends on little: the settings, and who runs. `Charter` is that part
of a node. Turns change workers, but neither how many there are nor what they are called, so
only starts and stops change the charter, and what it is after a run can be read off the
requests: a strategy runs if it was started since it was last stopped, its settings being in
order. Where it runs there is one worker for each of its shards, in their order.

A stop goes through all its steps, whatever fails on the way. Of the workers that have
broken down each is reported by its place among them, in their order. How failures are
reported is the matter of `OutboxCluster.Proofs.Failures`.

## Main definitions

* `Worker.haltError?`: What is reported of a worker that gave up.
* `Cluster.Charter`, `Cluster.charter?`: What requests depend on.
* `Cluster.StartedSince`, `Cluster.Up`: When a strategy runs.
* `Cluster.Charter.Tells`: What a charter says of a run.
* `Cluster.snapshots`: What a host is shown of its agents.
* `Cluster.AnswersStart`, `AnswersCompletion`, `AnswersDrain`, `AnswersStop`: What requests
  answer and leave behind.

## Theorems

* `Strategy.spawnAll_eq_ok`: There is a slot for every worker.
* `Strategy.stop_takes_steps`: No step of a stop is left out.
* `charter_step`, `charter_run`: What becomes of a charter.
* `Charter.Tells.after`, `tells_run`: When a strategy runs, and with whom.
* `answersStart`, `answersCompletion`, `answersDrain`, `answersStop`: The requests.
* `strategy_lifecycle`: All of this in every run.
-/

namespace OutboxCluster

/-- What is reported of a worker that gave up on a batch. -/
def Worker.haltError? (w : Worker) : Option CoordinationError :=
  match w.state with
  | .halted attempts reason => some (.processorHalted w.name attempts reason)
  | _ => none

theorem Worker.isSome_outcome? (w : Worker) : w.outcome?.isSome = w.lastState?.isSome := by
  unfold outcome?
  cases w.lastState? with
  | none => rfl
  | some state => cases state <;> rfl

namespace Strategy

/-- The workers that gave up are those that show it. -/
theorem haltErrors_eq (ws : List Worker) :
    haltErrors Worker.name Worker.outcome? ws = ws.filterMap Worker.haltError? := by
  refine List.filterMap_congr fun w _ => ?_
  unfold Worker.haltError? Worker.outcome? Worker.lastState?
  cases hstate : w.state with
  | stopped => rfl
  | halted attempts reason => rfl
  | _ => cases w.wait <;> rfl

variable {ω : Type} {s : Strategy ω} {make : Validated → Option Assignment → ω}

/-- A strategy that does not run has nobody. -/
theorem workers_of_not_running (h : s.running.isSome = false) : s.workers = [] := by
  unfold workers
  cases hrunning : s.running with
  | none => rfl
  | some r =>
      rw [hrunning] at h
      exact Bool.noConfusion h

/-- Workers get slots as long as there are enough. -/
theorem spawnAll_eq_ok (scheduler : Scheduler ω) (ws : List ω)
    (h : scheduler.workers.length + ws.length ≤ scheduler.capacity) :
    spawnAll scheduler ws = .ok { scheduler with workers := scheduler.workers ++ ws } := by
  induction ws generalizing scheduler with
  | nil =>
      rw [List.append_nil]
      rfl
  | cons w ws ih =>
      -- One slot is taken, and there is still one for each of the others.
      rw [List.length_cons] at h
      have hspawn : scheduler.spawn w =
          .ok { scheduler with workers := scheduler.workers ++ [w] } :=
        if_neg (by omega)
      have hrest := ih { scheduler with workers := scheduler.workers ++ [w] }
        (by simp only [List.length_append, List.length_singleton]; omega)
      rw [List.append_assoc, List.singleton_append] at hrest
      simp only [spawnAll, hspawn]
      exact hrest

section Start

theorem start_of_disabled (h : s.settings.processors.enabled = false) :
    s.start make = { result := .ok (), strategy := s, notices := [.processingDisabled] } := by
  unfold start
  rw [h]
  rfl

variable (henabled : s.settings.processors.enabled = true)

include henabled

theorem start_of_running (h : s.running.isSome = true) :
    s.start make = { result := .error .alreadyStarted, strategy := s } := by
  unfold start
  rw [henabled, h]
  rfl

theorem start_of_invalid (hnone : s.running.isSome = false) {e : ConfigError}
    (h : s.settings.validate = .error e) :
    s.start make = { result := .error (.config e), strategy := s } := by
  unfold start
  rw [henabled, hnone, h]
  rfl

theorem start_of_valid (make : Validated → Option Assignment → ω)
    (hnone : s.running.isSome = false) {v : Validated} (h : s.settings.validate = .ok v) :
    s.start make =
      { result := .ok ()
        strategy :=
          { s with
            running := some
              { scheduler :=
                  { capacity := v.assignments.length, workers := v.assignments.map (make v) } } }
        notices := [.processingStarted v.assignments.length] } := by
  -- The scheduler has been given as many slots as there are workers.
  have hspawn : spawnAll { capacity := v.assignments.length } (v.assignments.map (make v)) =
      .ok { capacity := v.assignments.length, workers := v.assignments.map (make v) } := by
    refine spawnAll_eq_ok _ _ ?_
    rw [List.length_map, List.length_nil]
    exact Nat.le_of_eq (Nat.zero_add _)
  unfold start
  simp only [henabled, hnone, h, List.length_map, hspawn]
  rfl

end Start

/-- A stop ends the workers, if there are any, and takes both of the other steps in any case. -/
theorem stop_takes_steps (s : Strategy ω) (faulty : ω → Bool)
    (finders agents : Except CoordinationError Unit) : ∃ ended shut,
    let steps := ended ++
      [("event finder provider", finders), ("agent repository provider", agents)]
    (s.running.isSome = false → ended = [] ∧ shut = []) ∧
    (s.running.isSome = true → ∃ result, ended = [("processors", result)] ∧
      CoordinationError.Reports ((slotsOf faulty s.workers).map .join) result) ∧
    (s.stop faulty finders agents).result =
      (if Closer.failures steps = [] then .ok () else .error (.shutdown (Closer.failures steps))) ∧
    (s.stop faulty finders agents).notices = shut ++ Closer.failureNotices steps ++
      [if Closer.failures steps = [] then .stopped else .stoppedWithErrors] := by
  unfold stop workers
  -- The closes of the providers are the same in both cases; only a run has a step before them.
  cases s.running with
  | none =>
      refine ⟨[], [], fun _ => ⟨rfl, rfl⟩, fun h => Bool.noConfusion h,
        Closer.finish_closeAll _, ?_⟩
      dsimp only
      rw [Closer.notices_closeAll]
      rcases Closer.finish_cases _ with ⟨h, hok⟩ | ⟨h, herror⟩
      · rw [hok, if_pos h]
      · rw [herror, if_neg h]
  | some r =>
      refine ⟨[("processors", r.scheduler.shutdownOutcome faulty)], r.scheduler.shutdownNotices,
        fun h => Bool.noConfusion h, fun _ => ⟨_, rfl, CoordinationError.collect_reports _⟩,
        Closer.finish_closeAll _, ?_⟩
      dsimp only
      rw [Closer.notices_closeAll]
      rcases Closer.finish_cases _ with ⟨h, hok⟩ | ⟨h, herror⟩
      · rw [hok, if_pos h]
      · rw [herror, if_neg h]

end Strategy

/-- A request does not keep anybody from making another one. -/
theorem Signal.dropped_send (σ : Signal) (raised : Bool) : (σ.send raised).dropped = σ.dropped := by
  unfold send
  split <;> rfl

namespace Cluster

/-- What the requests to a strategy depend on. -/
structure Charter where
  settings : Settings
  separate : Bool
  /-- The names of its workers, in order, if it runs. -/
  names : Option (List String)
  /-- Whether it runs and nobody can ask its workers to stop any more. -/
  deaf : Bool

/-- A strategy that starts, unless it runs or may not. -/
def Charter.started (ch : Charter) : Charter :=
  if ch.settings.processors.enabled && ch.names.isNone then
    match ch.settings.validate with
    | .error _ => ch
    | .ok v => { ch with names := some (v.assignments.map processorName), deaf := false }
  else ch

/-- What an event makes of the strategy of this name. -/
def Charter.after (name : String) (ch : Charter) : Event → Charter
  | .start node => if node = name then ch.started else ch
  | .stop node => if node = name then { ch with names := none, deaf := false } else ch
  | _ => ch

end Cluster

/-- The charter of a node, if it is a strategy. -/
def Body.charter? : Body → Option Cluster.Charter
  | .strategy s separate =>
    some { settings := s.settings, separate
           names := s.running.map fun r => r.scheduler.workers.map Worker.name
           deaf := s.running.any fun r => r.signal.dropped }
  | .single .. => none

/-- The strategy in place of one that was asked to start has started, if it could. -/
theorem Body.charter_start (s : Strategy Worker) (separate : Bool)
    {make : Validated → Option Assignment → Worker}
    (hmake : ∀ v a, (make v a).name = processorName a) :
    (strategy (s.start make).strategy separate).charter? =
      (strategy s separate).charter?.map Cluster.Charter.started := by
  -- The charter asks in the order in which the start does: enabled, not running, valid.
  cases henabled : s.settings.processors.enabled with
  | false =>
      rw [Strategy.start_of_disabled henabled]
      simp only [charter?, Option.map_some, Cluster.Charter.started, henabled, Bool.false_and,
        Bool.false_eq_true, if_false]
  | true =>
      cases hrunning : s.running with
      | some r =>
          rw [Strategy.start_of_running henabled (by rw [hrunning]; rfl)]
          simp only [charter?, Option.map_some, Cluster.Charter.started, hrunning,
            Option.isNone_some, Bool.and_false, Bool.false_eq_true, if_false]
      | none =>
          have hnone : s.running.isSome = false := by
            rw [hrunning]
            rfl
          cases hvalid : s.settings.validate with
          | error e =>
              rw [Strategy.start_of_invalid henabled hnone hvalid]
              simp only [charter?, Option.map_some, Option.map_none, Cluster.Charter.started,
                hrunning, henabled, Option.isNone_none, Bool.and_true, if_true, hvalid]
          | ok v =>
              rw [Strategy.start_of_valid henabled make hnone hvalid]
              simp only [charter?, Option.map_some, Option.map_none, Cluster.Charter.started,
                hrunning, henabled, Option.isNone_none, Bool.and_true, if_true, hvalid,
                List.map_map, Option.any_some]
              have hnames : Worker.name ∘ make v = processorName := funext fun a => hmake v a
              rw [hnames]

/-- Another worker of the same name makes no difference. -/
theorem Body.charter_setWorker {b : Body} {i : Nat} {w w' : Worker}
    (hworker : b.workers[i]? = some w) (hname : w'.name = w.name) :
    (b.setWorker i w').charter? = b.charter? := by
  cases b with
  | single w₀ signal => rfl
  | strategy s separate =>
      rcases s with ⟨settings, running⟩
      cases running with
      | none => rfl
      | some r =>
          have hworker : r.scheduler.workers[i]? = some w := hworker
          simp only [setWorker, charter?, Option.map_some, Option.any_some,
            map_set_of_eq hworker hname]

namespace Cluster

/-- The node that comes with an event. -/
def Event.added? : Event → Option String
  | .addStrategy host .. | .addSingle host .. => some host.name
  | _ => none

variable {bound : Nat} {c : Cluster} {name other : String}

/-- The charter of the strategy of this name. -/
def charter? (c : Cluster) (name : String) : Option Charter :=
  (c.find? name).bind (·.body.charter?)

theorem find?_modifyNode {change : Node → Node}
    (hname : ∀ n, n.host.name = other → (change n).host.name = other) :
    (c.modifyNode other change).find? name =
      if name = other then (c.find? name).map change else c.find? name := by
  -- What is looked for before the change is what is looked for after it.
  have hkept : ((·.host.name == name) ∘ fun n => if n.host.name = other then change n else n) =
      fun n : Node => n.host.name == name := by
    funext n
    by_cases hn : n.host.name = other
    · rw [Function.comp_apply, if_pos hn, hname n hn, hn]
    · rw [Function.comp_apply, if_neg hn]
  unfold find? modifyNode
  rw [List.find?_map, hkept]
  cases hfind : c.nodes.find? (·.host.name == name) with
  | none => split <;> rfl
  | some n =>
      rw [Option.map_some, Option.map_some, name_of_find? hfind]
      split <;> rfl

theorem find?_addNode {node : Node} (hname : node.host.name ≠ name) :
    (c.addNode node).find? name = c.find? name := by
  unfold find? addNode
  have hothers : ∀ n : Node, decide ((n.host.name != node.host.name) = true ∧
      (n.host.name == name) = true) = (n.host.name == name) := by
    intro n
    by_cases hn : n.host.name = name
    · rw [hn, bne_iff_ne.mpr hname.symm, beq_self_eq_true]
      rfl
    · rw [beq_false_of_ne hn]
      exact decide_eq_false fun h => Bool.false_ne_true h.2
  rw [List.find?_append, List.find?_filter]
  simp only [hothers, List.find?_cons, beq_false_of_ne hname, List.find?_nil, Option.or_none]

/-- Nodes are changed, but not their charters. -/
theorem charter_modifyNode {change : Node → Node} (hname : ∀ n, (change n).host.name = n.host.name)
    (hchange : ∀ n, (change n).body.charter? = n.body.charter?) :
    (c.modifyNode other change).charter? name = c.charter? name := by
  unfold charter?
  rw [find?_modifyNode fun n hn => (hname n).trans hn]
  split
  · cases c.find? name with
    | none => rfl
    | some n => exact hchange n
  · rfl

theorem charter_modifySingle {change : Worker → Signal → Worker × Signal} :
    (c.modifySingle other change).charter? name = c.charter? name := by
  refine charter_modifyNode (fun n => ?_) fun n => ?_
  · dsimp only
    split <;> rfl
  · dsimp only
    split
    · rename_i hbody
      rw [hbody]
      rfl
    · rfl

/-- In a turn no worker changes its name. -/
theorem charter_turn (hcustody : c.Custody bound) (hopens : c.OpensWithin bound) (n i skip : Nat) :
    (c.resumeWorker n i skip).charter? name = c.charter? name := by
  -- The charter depends on the names and the charters of all nodes, and those stay.
  have hfound : ∀ nodes : List Node, (nodes.find? (·.host.name == name)).bind (·.body.charter?) =
      ((nodes.map fun n => (n.host.name, n.body.charter?)).find? (·.1 == name)).bind (·.2) := by
    intro nodes
    rw [List.find?_map, Option.bind_map]
    rfl
  unfold charter? find?
  rw [hfound, hfound]
  unfold resumeWorker
  cases hnode : c.nodes[n]? with
  | none => rfl
  | some node =>
      dsimp only
      cases hworker : node.body.workers[i]? with
      | none => rfl
      | some worker =>
          have hmem := List.mem_of_getElem? hnode
          have hsettles := Scene.resume_settles (s := c.scene node worker skip) hcustody.lawful
            (hcustody.sound node hmem worker (List.mem_of_getElem? hworker)) (hopens node hmem)
          rw [map_set_of_eq (f := fun n : Node => (n.host.name, n.body.charter?)) hnode]
          exact Prod.ext hsettles.follows.node_eq
            (Body.charter_setWorker hworker hsettles.follows.worker_eq)

/-- The node of this name is another one, and what was reported makes no difference. -/
theorem charter_report_modifyNode {change : Node → Node} (ns : List Notice)
    (hname : ∀ n, n.host.name = other → (change n).host.name = other) {node : Node}
    (hfind : c.find? other = some node) {f : Charter → Charter}
    (hchange : (change node).body.charter? = node.body.charter?.map f) :
    ((c.modifyNode other change).report ns).charter? name =
      (c.charter? name).map fun ch => if other = name then f ch else ch := by
  have hreport : ((c.modifyNode other change).report ns).charter? name =
      (c.modifyNode other change).charter? name := rfl
  rw [hreport]
  unfold charter?
  rw [find?_modifyNode hname]
  by_cases heq : name = other
  · obtain rfl := heq
    simp only [hfind, if_true, Option.map_some, Option.bind_some]
    exact hchange
  · rw [if_neg heq]
    simp only [if_neg (Ne.symm heq), Option.map_id']

/-- Where there is no strategy of this name nothing becomes of one. -/
theorem charter_of_none {node? : Option Node} (hfind : c.find? other = node?)
    (hnone : node?.bind (·.body.charter?) = none) {f : Charter → Charter} :
    c.charter? name = (c.charter? name).map fun ch => if other = name then f ch else ch := by
  by_cases heq : other = name
  · obtain rfl := heq
    unfold charter?
    rw [hfind, hnone]
    rfl
  · simp only [if_neg heq, Option.map_id']

theorem charter_start : (c.start other).2.charter? name =
    (c.charter? name).map fun ch => if other = name then ch.started else ch := by
  unfold Cluster.start
  cases hfind : c.find? other with
  | none => exact charter_of_none hfind rfl
  | some node =>
      dsimp only
      cases hbody : node.body with
      | single w signal =>
          refine charter_report_modifyNode [] ?_ hfind ?_
          · exact fun _ hn => hn
          · rw [hbody]
            rfl
      | strategy s separate =>
          refine charter_report_modifyNode _ ?_ hfind ?_
          · exact fun _ hn => hn
          · rw [hbody]
            exact Body.charter_start s separate fun _ _ => rfl

theorem charter_drain : (c.drain other).charter? name = c.charter? name := by
  have hsame : c.charter? name =
      (c.charter? name).map fun ch => if other = name then ch else ch := by
    simp only [ite_self, Option.map_id']
  unfold Cluster.drain
  cases hfind : c.find? other with
  | none => rfl
  | some node =>
      rcases node with ⟨host, body, totalCount⟩
      cases body with
      | single w signal => rfl
      | strategy s separate =>
          refine (charter_report_modifyNode _ ?_ hfind ?_).trans hsame.symm
          · exact fun _ hn => hn
          · rcases s with ⟨settings, running⟩
            cases running with
            | none => rfl
            | some r =>
                simp only [Body.charter?, Option.map_some, Option.any_some,
                  Signal.dropped_send]

theorem charter_stop : (c.stop other).2.charter? name =
    (c.charter? name).map fun ch =>
      if other = name then { ch with names := none, deaf := false } else ch := by
  unfold Cluster.stop
  cases hfind : c.find? other with
  | none => exact charter_of_none hfind rfl
  | some node =>
      have hnode := name_of_find? hfind
      rcases node with ⟨host, body, totalCount⟩
      cases body with
      | single w signal => exact charter_of_none hfind rfl
      | strategy s separate =>
          refine charter_report_modifyNode _ ?_ hfind rfl
          exact fun _ _ => (closeAccess_name _ _ _).trans ((closeAccess_name _ _ _).trans hnode)

/-- Only starts and stops make another charter of one. -/
theorem charter_step (hcustody : c.Custody bound) (hopens : c.OpensWithin bound) {e : Event}
    (hadded : e.added? ≠ some name) :
    (c.perform e).2.charter? name = (c.charter? name).map (Charter.after name · e) := by
  -- Whatever is no call of this strategy leaves its charter as it was.
  have hsame : ∀ c' : Cluster, c'.charter? name = c.charter? name →
      c'.charter? name = (c.charter? name).map fun ch => ch := by
    intro c' hc'
    rw [hc']
    exact Option.map_id'.symm
  have hadd : ∀ node : Node, node.host.name ≠ name →
      (c.addNode node).charter? name = c.charter? name := by
    intro node hne
    unfold charter?
    rw [find?_addNode hne]
  cases e with
  | addStrategy host settings separate =>
      exact hsame _ (hadd _ fun heq => hadded (congrArg some heq))
  | addSingle host settings agent configured =>
      dsimp only [perform, Cluster.addSingle]
      cases settings.validate with
      | error e => exact hsame _ rfl
      | ok v => exact hsame _ (hadd _ fun heq => hadded (congrArg some heq))
  | start node => exact charter_start
  | drain node => exact hsame _ charter_drain
  | stop node => exact charter_stop
  | send node raised => exact hsame _ charter_modifySingle
  | dropSignal node => exact hsame _ charter_modifySingle
  | abort node => exact hsame _ charter_modifySingle
  | discard node => exact hsame _ charter_modifySingle
  | moveWall node ms => exact hsame _ (charter_modifyNode (fun _ => rfl) fun _ => rfl)
  | arm node point times error => exact hsame _ (charter_modifyNode (fun _ => rfl) fun _ => rfl)
  | slow node point ms => exact hsame _ (charter_modifyNode (fun _ => rfl) fun _ => rfl)
  | turn n i skip =>
      dsimp only [perform]
      split
      · exact hsame _ (charter_turn hcustody hopens n i skip)
      · exact hsame _ rfl
  | tick =>
      dsimp only [perform]
      split <;> exact hsame _ rfl
  | enqueue | deleteEvents | putAgent | deleteAgents => exact hsame _ rfl

theorem charter_run {events : List Event} (hcustody : c.Custody bound)
    (hopens : Always (OpensWithin bound) c events) (hadded : ∀ e ∈ events, e.added? ≠ some name) :
    (c.run events).charter? name =
      (c.charter? name).map fun ch => events.foldl (Charter.after name) ch := by
  induction events generalizing c with
  | nil => exact Option.map_id'.symm
  | cons e events ih =>
      have hrest := ih (custody_step hcustody hopens.1 e) hopens.2
        fun e' he' => hadded e' (List.mem_cons_of_mem _ he')
      rw [charter_step hcustody hopens.1 (hadded e List.mem_cons_self), Option.map_map] at hrest
      exact hrest

/-- The strategy of this name was asked to start, and not to stop since. -/
def StartedSince (name : String) (events : List Event) : Prop :=
  ∃ before after, events = before ++ .start name :: after ∧ .stop name ∉ after

theorem startedSince_concat {events : List Event} {e : Event} :
    StartedSince name (events ++ [e]) ↔
      e = .start name ∨ StartedSince name events ∧ e ≠ .stop name := by
  constructor
  · rintro ⟨before, after, heq, hstop⟩
    rcases List.eq_nil_or_concat' after with rfl | ⟨after, last, rfl⟩
    · exact Or.inl (List.singleton_inj.mp (List.append_inj' heq rfl).2)
    · rw [← List.cons_append, ← List.append_assoc] at heq
      rcases List.append_inj' heq rfl with ⟨rfl, hlast⟩
      rw [List.singleton_inj.mp hlast]
      rw [List.mem_append, List.mem_singleton, not_or] at hstop
      exact Or.inr ⟨⟨before, after, rfl, hstop.1⟩, Ne.symm hstop.2⟩
  · rintro (rfl | ⟨⟨before, after, rfl, hstop⟩, hlast⟩)
    · exact ⟨events, [], rfl, List.not_mem_nil⟩
    · refine ⟨before, after ++ [e], ?_, ?_⟩
      · rw [List.append_assoc, List.cons_append]
      · rw [List.mem_append, List.mem_singleton, not_or]
        exact ⟨hstop, hlast.symm⟩

/-- A strategy runs: it may, and it was asked to start and not to stop since. -/
def Up (settings : Settings) (name : String) (events : List Event) : Prop :=
  settings.processors.enabled = true ∧ (∃ v, settings.validate = .ok v) ∧
    StartedSince name events

/-- A strategy that may not run does not start. -/
theorem Charter.started_of_not {ch : Charter}
    (h : ¬ (ch.settings.processors.enabled = true ∧ ∃ v, ch.settings.validate = .ok v)) :
    ch.started = ch := by
  unfold started
  split
  · rename_i hmay
    cases hvalid : ch.settings.validate with
    | error e => rfl
    | ok v => exact absurd ⟨(Bool.and_eq_true_iff.mp hmay).1, v, hvalid⟩ h
  · rfl

/-- A strategy that may run does so after a start, as before if it ran already. -/
theorem Charter.started_of_valid {ch : Charter} (henabled : ch.settings.processors.enabled = true)
    {v : Validated} (hvalid : ch.settings.validate = .ok v) : ch.started =
      { ch with
        names := some (ch.names.getD (v.assignments.map processorName))
        deaf := ch.names.isSome && ch.deaf } := by
  rcases ch with ⟨settings, separate, names, deaf⟩
  dsimp only at henabled hvalid
  cases names with
  | none =>
      simp only [started, henabled, hvalid, Option.isNone_none, Bool.and_true, if_true,
        Option.getD_none, Option.isSome_none, Bool.false_and]
  | some names =>
      simp only [started, Option.isNone_some, Bool.and_false, Bool.false_eq_true, if_false,
        Option.getD_some, Option.isSome_some, Bool.true_and]

/-- The charter tells when the strategy runs after these events, and with whom. -/
structure Charter.Tells (ch : Charter) (settings : Settings) (separate : Bool) (name : String)
    (events : List Event) : Prop where
  settings_eq : ch.settings = settings
  separate_eq : ch.separate = separate
  up_iff : ch.names.isSome = true ↔ Up settings name events
  names_eq : ∀ names v, ch.names = some names → settings.validate = .ok v →
    names = v.assignments.map processorName
  deaf_eq : ch.deaf = false

namespace Charter.Tells

variable {ch : Charter} {settings : Settings} {separate : Bool} {events : List Event}

/-- Nobody runs before the first start. -/
theorem nil : Charter.Tells ⟨settings, separate, none, false⟩ settings separate name [] where
  settings_eq := rfl
  separate_eq := rfl
  up_iff := by
    refine iff_of_false Bool.false_ne_true ?_
    rintro ⟨_, _, before, after, heq, _⟩
    exact absurd heq.symm (List.append_ne_nil_of_right_ne_nil _ (List.cons_ne_nil _ _))
  names_eq := fun _ _ h => nomatch h
  deaf_eq := rfl

theorem start (h : ch.Tells settings separate name events) :
    ch.started.Tells settings separate name (events ++ [.start name]) := by
  rcases h with ⟨rfl, rfl, hup, hnames, hdeaf⟩
  have hsince : StartedSince name (events ++ [.start name]) :=
    startedSince_concat.mpr (Or.inl rfl)
  by_cases hmay : ch.settings.processors.enabled = true ∧ ∃ v, ch.settings.validate = .ok v
  · rcases hmay with ⟨henabled, v, hvalid⟩
    rw [Charter.started_of_valid henabled hvalid]
    refine ⟨rfl, rfl, iff_of_true rfl ⟨henabled, ⟨v, hvalid⟩, hsince⟩, ?_,
      by rw [hdeaf, Bool.and_false]⟩
    intro names' v' hnames' hvalid'
    obtain rfl := Except.ok.inj (hvalid.symm.trans hvalid')
    rw [← Option.some.inj hnames']
    -- Those who run already were made from the same settings.
    cases hbefore : ch.names with
    | none => rfl
    | some names => exact hnames names v hbefore hvalid
  · rw [Charter.started_of_not hmay]
    refine ⟨rfl, rfl, hup.trans (iff_of_false ?_ ?_), hnames, hdeaf⟩
    · exact fun h => hmay ⟨h.1, h.2.1⟩
    · exact fun h => hmay ⟨h.1, h.2.1⟩

theorem stop (h : ch.Tells settings separate name events) :
    Charter.Tells { ch with names := none, deaf := false } settings separate name
      (events ++ [.stop name]) := by
  refine ⟨h.settings_eq, h.separate_eq, iff_of_false Bool.false_ne_true ?_,
    (fun _ _ h => nomatch h), rfl⟩
  rintro ⟨_, _, hsince⟩
  rcases startedSince_concat.mp hsince with hstart | ⟨_, hstop⟩
  · exact nomatch hstart
  · exact hstop rfl

/-- Nothing else makes a difference. -/
theorem unchanged (h : ch.Tells settings separate name events) {e : Event}
    (hstart : e ≠ .start name) (hstop : e ≠ .stop name) :
    ch.Tells settings separate name (events ++ [e]) := by
  refine ⟨h.settings_eq, h.separate_eq, h.up_iff.trans ?_, h.names_eq, h.deaf_eq⟩
  rw [Up, Up, startedSince_concat, or_iff_right hstart, and_iff_left hstop]

theorem after (h : ch.Tells settings separate name events) (e : Event) :
    (Charter.after name ch e).Tells settings separate name (events ++ [e]) := by
  cases e with
  | start node =>
      by_cases hnode : node = name
      · rw [Charter.after, if_pos hnode, hnode]
        exact h.start
      · rw [Charter.after, if_neg hnode]
        exact h.unchanged (fun heq => hnode (Event.start.inj heq)) nofun
  | stop node =>
      by_cases hnode : node = name
      · rw [Charter.after, if_pos hnode, hnode]
        exact h.stop
      · rw [Charter.after, if_neg hnode]
        exact h.unchanged nofun fun heq => hnode (Event.stop.inj heq)
  | _ => exact h.unchanged nofun nofun

end Charter.Tells

/-- When a strategy runs, and with whom. -/
theorem tells_run (settings : Settings) (separate : Bool) (name : String) (events : List Event) :
    (events.foldl (Charter.after name) ⟨settings, separate, none, false⟩).Tells
      settings separate name events := by
  -- What has happened since a start grows at its end.
  induction events using List.reverseRecOn with
  | nil => exact Charter.Tells.nil
  | append_singleton events e ih =>
      rw [List.foldl_append]
      exact ih.after e

/-- What a host is shown of the agents of a node. -/
def snapshots (c : Cluster) (name : String) : List (String × Snapshot) :=
  (c.workersOf name).map fun w => (w.name, w.link.snapshot)

/-- The worker that a start makes for a shard. -/
def made (c : Cluster) (v : Validated) (a : Option Assignment) : Worker :=
  { Worker.ofSettings v (processorName a) a c.now with wait := .launched }

/-- What a start answers, and what it leaves behind. -/
structure AnswersStart (c : Cluster) (name : String) (settings : Settings) (up : Prop) :
    Prop where
  disabled : settings.processors.enabled = false →
    c.start name = (.ok (), c.report [.processingDisabled])
  running : up → c.start name = (.error .alreadyStarted, c)
  invalid : settings.processors.enabled = true → ∀ e, settings.validate = .error e →
    c.start name = (.error (.config e), c)
  valid : settings.processors.enabled = true → ¬ up → ∀ v, settings.validate = .ok v →
    (c.start name).1 = .ok () ∧
    (c.start name).2.workersOf name = v.assignments.map (c.made v) ∧
    (c.start name).2.snapshots name = v.assignments.map fun a => (processorName a, {})
  not_full : ∀ capacity, (c.start name).1 ≠ .error (.schedulerFull capacity)

/-- What waiting for the workers comes to. -/
structure AnswersCompletion (c : Cluster) (name : String) (up : Prop) : Prop where
  idle : ¬ up → c.completion? name = some (.ok ())
  done : (c.completion? name).isSome = true ↔
    ∀ w ∈ c.workersOf name, w.lastState?.isSome = true
  reports : ∀ result, c.completion? name = some result →
    CoordinationError.Reports ((c.workersOf name).filterMap Worker.haltError?) result

/-- What is left when workers are asked to stop. They are told so, each whenever it looks, and
    it is reported how many there are. -/
structure AnswersDrain (c : Cluster) (name : String) (up : Prop) : Prop where
  idle : ¬ up → c.drain name = c
  request : up → ∃ node node', c.find? name = some node ∧
    (c.drain name).find? name = some node' ∧ node'.host = node.host ∧
    node'.body.signal.raised = true ∧
    node'.body.signal.version = node.body.signal.version + 1
  journal : up → (c.drain name).journal =
    c.journal.addNotices [.draining (c.workersOf name).length]
  workers : (c.drain name).workersOf name = c.workersOf name
  completion : (c.drain name).completion? name = c.completion? name

/-- What a stop answers, and what it leaves behind. Its steps are to end the workers, if
    there are any, and to close the two accesses of the host. -/
structure AnswersStop (c : Cluster) (name : String) (host : Host) (separate : Bool)
    (settings : Settings) (up : Prop) : Prop where
  steps : ∃ ended shut,
    let finders := closeAccess host .closeFinders (! separate)
    let agents := closeAccess finders.2 .closeAgents true
    let steps := ended ++
      [("event finder provider", finders.1), ("agent repository provider", agents.1)]
    (¬ up → ended = [] ∧ shut = []) ∧
    (up → ∃ result, ended = [("processors", result)] ∧
      CoordinationError.Reports
        ((slotsOf Worker.isBroken (c.workersOf name)).map .join) result) ∧
    (c.stop name).1 =
      (if Closer.failures steps = [] then .ok () else .error (.shutdown (Closer.failures steps))) ∧
    (c.stop name).2.journal = c.journal.addNotices (shut ++ Closer.failureNotices steps ++
      [if Closer.failures steps = [] then .stopped else .stoppedWithErrors]) ∧
    ∃ node, (c.stop name).2.find? name = some node ∧ node.host = agents.2
  idle : (c.stop name).2.workersOf name = [] ∧ (c.stop name).2.snapshots name = [] ∧
    (c.stop name).2.completion? name = some (.ok ())
  again : settings.processors.enabled = true → ∀ v, settings.validate = .ok v →
    ((c.stop name).2.start name).1 = .ok ()

section Requests

variable {host : Host} {s : Strategy Worker} {separate : Bool} {totalCount : Option Int64}
  (hfind : c.find? name = some { host, body := .strategy s separate, totalCount })

include hfind

theorem workersOf_eq : c.workersOf name = s.workers := by
  unfold workersOf
  rw [hfind]
  rfl

theorem completion_eq : c.completion? name = s.completion? Worker.name Worker.outcome? := by
  unfold completion?
  rw [hfind]

theorem start_eq : c.start name = ((s.start c.made).result,
    (c.modifyNode name fun n =>
      { n with body := .strategy (s.start c.made).strategy separate }).report
        (s.start c.made).notices) := by
  unfold Cluster.start
  rw [hfind]
  rfl

/-- The node has what it has. -/
theorem modifyNode_self (hdistinct : c.Distinct) :
    (c.modifyNode name fun n => { n with body := .strategy s separate }) = c := by
  have hnodes : (c.nodes.map fun n =>
      if n.host.name = name then { n with body := .strategy s separate } else n) = c.nodes := by
    refine (List.map_congr_left fun n hn => ?_).trans (List.map_id _)
    by_cases hname : n.host.name = name
    · rw [if_pos hname, hdistinct.eq_of_find? hfind hn hname]
      rfl
    · exact if_neg hname
  unfold modifyNode
  rw [hnodes]

theorem find?_start : (c.start name).2.find? name =
    some { host, body := .strategy (s.start c.made).strategy separate, totalCount } := by
  rw [start_eq hfind]
  refine (find?_modifyNode ?_).trans ?_
  · exact fun _ hn => hn
  · rw [if_pos rfl, hfind]
    rfl

theorem drain_eq : c.drain name =
    (c.modifyNode name fun n => { n with body := .strategy s.drain.1 separate }).report
      s.drain.2 := by
  unfold Cluster.drain
  rw [hfind]

theorem find?_drain : (c.drain name).find? name =
    some { host, body := .strategy s.drain.1 separate, totalCount } := by
  rw [drain_eq hfind]
  refine (find?_modifyNode ?_).trans ?_
  · exact fun _ hn => hn
  · rw [if_pos rfl, hfind]
    rfl

/-- A stop closes both accesses of the host in any case. -/
theorem stop_eq : c.stop name =
    let finders := closeAccess host .closeFinders (! separate)
    let agents := closeAccess finders.2 .closeAgents true
    let reply := s.stop Worker.isBroken finders.1 agents.1
    (reply.result, (c.modifyNode name fun n =>
      { n with host := agents.2, body := .strategy reply.strategy separate }).report
        reply.notices) := by
  unfold Cluster.stop
  rw [hfind]

theorem find?_stop :
    (c.stop name).2.find? name = some
      { host := (closeAccess (closeAccess host .closeFinders (! separate)).2 .closeAgents true).2
        body := .strategy { s with running := none } separate, totalCount } := by
  have hname := name_of_find? hfind
  rw [stop_eq hfind]
  refine (find?_modifyNode ?_).trans ?_
  · exact fun _ _ => (closeAccess_name _ _ _).trans ((closeAccess_name _ _ _).trans hname)
  · rw [if_pos rfl, hfind]
    rfl

variable {settings : Settings} {up : Prop}

theorem answersStart (hdistinct : c.Distinct) (hsettings : s.settings = settings)
    (hup : s.running.isSome = true ↔ up)
    (hmay : up → settings.processors.enabled = true ∧ ∃ v, settings.validate = .ok v) :
    c.AnswersStart name settings up := by
  subst hsettings
  have hself := modifyNode_self hfind hdistinct
  have hdisabled : s.settings.processors.enabled = false →
      c.start name = (.ok (), c.report [.processingDisabled]) := by
    intro h
    rw [start_eq hfind, Strategy.start_of_disabled h, hself]
  have hrunning : up → c.start name = (.error .alreadyStarted, c) := by
    intro h
    rw [start_eq hfind, Strategy.start_of_running (hmay h).1 (hup.mpr h), hself]
    rfl
  have hnone : ¬ up → s.running.isSome = false := fun h => Bool.eq_false_iff.mpr (mt hup.mp h)
  have hinvalid : s.settings.processors.enabled = true → ∀ e, s.settings.validate = .error e →
      c.start name = (.error (.config e), c) := by
    intro henabled e he
    -- With such settings it has never been started.
    have hdown : ¬ up := by
      intro h
      rcases (hmay h).2 with ⟨v, hv⟩
      exact nomatch hv.symm.trans he
    rw [start_eq hfind, Strategy.start_of_invalid henabled (hnone hdown) he, hself]
    rfl
  have hvalid : s.settings.processors.enabled = true → ¬ up → ∀ v, s.settings.validate = .ok v →
      (c.start name).1 = .ok () ∧
      (c.start name).2.workersOf name = v.assignments.map (c.made v) := by
    intro henabled hdown v hv
    have hstart := Strategy.start_of_valid henabled c.made (hnone hdown) hv
    refine ⟨?_, ?_⟩
    · rw [start_eq hfind, hstart]
    · rw [workersOf_eq (find?_start hfind), hstart]
      rfl
  refine ⟨hdisabled, hrunning, hinvalid, fun henabled hdown v hv => ?_, fun capacity hfull => ?_⟩
  · rcases hvalid henabled hdown v hv with ⟨hok, hworkers⟩
    refine ⟨hok, hworkers, ?_⟩
    rw [snapshots, hworkers, List.map_map]
    rfl
  · -- The four cases are all that there are, and none of them is this one.
    cases henabled : s.settings.processors.enabled with
    | false => exact nomatch (congrArg Prod.fst (hdisabled henabled)).symm.trans hfull
    | true =>
        by_cases h : up
        · exact nomatch (congrArg Prod.fst (hrunning h)).symm.trans hfull
        · cases hv : s.settings.validate with
          | error e => exact nomatch (congrArg Prod.fst (hinvalid henabled e hv)).symm.trans hfull
          | ok v => exact nomatch (hvalid henabled h v hv).1.symm.trans hfull

theorem answersCompletion (hup : s.running.isSome = true ↔ up) : c.AnswersCompletion name up := by
  have hworkers := workersOf_eq hfind
  have hdone : (s.workers.all fun w => w.outcome?.isSome) = true ↔
      ∀ w ∈ c.workersOf name, w.lastState?.isSome = true := by
    rw [hworkers]
    simp only [Worker.isSome_outcome?, List.all_eq_true]
  refine ⟨fun h => ?_, ?_, fun result hresult => ?_⟩
  · have hnone : s.running.isSome = false := Bool.eq_false_iff.mpr (mt hup.mp h)
    rw [completion_eq hfind, Strategy.completion?, Strategy.workers_of_not_running hnone]
    rfl
  · rw [completion_eq hfind, Strategy.completion?, ← hdone]
    split
    · exact iff_of_true rfl ‹_›
    · exact iff_of_false Bool.false_ne_true ‹_›
  · rw [completion_eq hfind, Strategy.completion?] at hresult
    split at hresult
    · rw [← Option.some.inj hresult, Strategy.haltErrors_eq, hworkers]
      exact CoordinationError.collect_reports _
    · exact nomatch hresult

theorem answersDrain (hdistinct : c.Distinct) (hup : s.running.isSome = true ↔ up)
    (hheard : (s.running.any fun r => r.signal.dropped) = false) : c.AnswersDrain name up := by
  have hafter := find?_drain hfind
  refine ⟨fun h => ?_, fun h => ⟨_, _, hfind, hafter, rfl, ?_⟩, fun h => ?_, ?_, ?_⟩
  · have hidle : s.drain = (s, []) := by
      unfold Strategy.drain
      cases hrunning : s.running with
      | none => rfl
      | some r => exact absurd (hup.mp (by rw [hrunning]; rfl)) h
    rw [drain_eq hfind, hidle]
    exact modifyNode_self hfind hdistinct
  · rcases Option.isSome_iff_exists.mp (hup.mpr h) with ⟨r, hr⟩
    rw [hr, Option.any_some] at hheard
    simp only [Body.signal, Strategy.drain, hr, Signal.send, hheard, Bool.false_eq_true, if_false]
    exact ⟨trivial, trivial⟩
  · rcases Option.isSome_iff_exists.mp (hup.mpr h) with ⟨r, hr⟩
    rw [drain_eq hfind, workersOf_eq hfind, Strategy.workers, Strategy.drain, hr]
    rfl
  · rw [workersOf_eq hafter, workersOf_eq hfind, s.workers_drain]
  · rw [completion_eq hafter, completion_eq hfind, Strategy.completion?, Strategy.completion?,
      s.workers_drain]

theorem answersStop (hsettings : s.settings = settings) (hup : s.running.isSome = true ↔ up) :
    c.AnswersStop name host separate settings up := by
  subst hsettings
  have hafter := find?_stop hfind
  refine ⟨?_, ⟨?_, ?_, ?_⟩, fun henabled v hv => ?_⟩
  · rcases s.stop_takes_steps Worker.isBroken (closeAccess host .closeFinders (! separate)).1
      (closeAccess (closeAccess host .closeFinders (! separate)).2 .closeAgents true).1 with
      ⟨ended, shut, hnone, hsome, hresult, hnotices⟩
    refine ⟨ended, shut, fun h => hnone (Bool.eq_false_iff.mpr (mt hup.mp h)),
      fun h => ?_, ?_, ?_, _, hafter, rfl⟩
    · rw [workersOf_eq hfind]
      exact hsome (hup.mpr h)
    · rw [stop_eq hfind]
      exact hresult
    · rw [stop_eq hfind]
      exact congrArg c.journal.addNotices hnotices
  · rw [workersOf_eq hafter]
    rfl
  · rw [snapshots, workersOf_eq hafter]
    rfl
  · rw [completion_eq hafter]
    rfl
  · have hstart := Strategy.start_of_valid (s := { s with running := none }) henabled
      (c.stop name).2.made rfl hv
    rw [start_eq hafter, hstart]

end Requests

/-- The strategy whose charter this is. -/
theorem exists_of_charter {ch : Charter} (h : c.charter? name = some ch) :
    ∃ host s totalCount,
      c.find? name = some { host, body := .strategy s ch.separate, totalCount } ∧
      s.settings = ch.settings ∧
      (s.running.map fun r => r.scheduler.workers.map Worker.name) = ch.names ∧
      (s.running.any fun r => r.signal.dropped) = ch.deaf := by
  rcases Option.bind_eq_some_iff.mp h with ⟨⟨host, body, totalCount⟩, hfind, hbody⟩
  cases body with
  | single w signal => exact nomatch hbody
  | strategy s separate =>
      obtain rfl := Option.some.inj hbody
      exact ⟨host, s, totalCount, hfind, rfl, rfl, rfl⟩

/-- A strategy that was just added does not run. -/
theorem charter_addStrategy (host : Host) (settings : Settings) (separate : Bool) :
    (c.addStrategy host settings separate).charter? host.name =
      some { settings, separate, names := none, deaf := false } := by
  -- Whoever had this name before is gone.
  have hothers : (c.nodes.filter (·.host.name != host.name)).find? (·.host.name == host.name) =
      none := by
    refine List.find?_eq_none.mpr fun n hn => ?_
    rw [beq_iff_eq]
    exact bne_iff_ne.mp (List.mem_filter.mp hn).2
  have hadded : (c.addStrategy host settings separate).find? host.name =
      some { host, body := .strategy { settings } separate
             totalCount := settings.shards.totalCount } := by
    unfold find? Cluster.addStrategy addNode
    rw [List.find?_append, hothers, Option.none_or]
    exact List.find?_cons_of_pos (beq_self_eq_true host.name)
  rw [charter?, hadded]
  rfl

/-- What has become of a strategy since it was added. -/
theorem exists_of_run (hcustody : c.Custody bound) {events : List Event} {host : Host}
    {settings : Settings} {separate : Bool}
    (hopens : Always (OpensWithin bound) c (.addStrategy host settings separate :: events))
    (hadded : ∀ e ∈ events, e.added? ≠ some host.name) :
    ∃ current s totalCount,
      (c.run (.addStrategy host settings separate :: events)).find? host.name =
        some { host := current, body := .strategy s separate, totalCount } ∧
      s.settings = settings ∧
      (s.running.isSome = true ↔ Up settings host.name events) ∧
      (s.running.any fun r => r.signal.dropped) = false ∧
      ∀ v, s.running.isSome = true → settings.validate = .ok v →
        s.workers.map Worker.name = v.assignments.map processorName := by
  have hcharter := charter_run (custody_step hcustody hopens.1 _) hopens.2 hadded
  have hnew : (c.perform (.addStrategy host settings separate)).2.charter? host.name =
      some { settings, separate, names := none, deaf := false } :=
    charter_addStrategy host settings separate
  rw [hnew, Option.map_some] at hcharter
  -- The charter is known from the calls alone, and the strategy from the charter.
  rcases tells_run settings separate host.name events with
    ⟨hsettings, hseparate, hup, hnames, hdeaf⟩
  rcases exists_of_charter hcharter with ⟨current, s, totalCount, hfind, hs, hrunning, hheard⟩
  rw [hseparate] at hfind
  rw [← hrunning, Option.isSome_map] at hup
  refine ⟨current, s, totalCount, hfind, hs.trans hsettings, hup, hheard.trans hdeaf,
    fun v h hvalid => ?_⟩
  rcases Option.isSome_iff_exists.mp h with ⟨r, hr⟩
  rw [hr] at hrunning
  rw [← hnames _ v hrunning.symm hvalid, Strategy.workers, hr]

end Cluster

end OutboxCluster
