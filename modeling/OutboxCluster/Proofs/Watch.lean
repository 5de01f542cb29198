import OutboxCluster.Proofs.Retry

/-!
# Following one Worker

A worker does what it does in its own turns. In between others act, time goes by, and it may
be asked to stop, started or ended. A law about one worker in a run needs no more than that,
and `followed_step` says it of every event: the worker is found again under its name, with the
request to stop that it watches, and it has taken its turn or is as it was.

The other direction is for invariants. Whoever is in a cluster after an event was there
before, or has just come, done nothing and seen no request (`origin_step`). So what turns, and
everything else that may happen to a worker, leave true of it and of its request is true of
all workers in all runs, and `Lasting.run` is the one induction for that.

Between turns a request to stop belongs to a node and not to its workers, and a node that is
started again comes with another one. This is why nodes are followed here, where it was
enough for ownership to follow the crew.

## Main definitions

* `Cluster.Event.Signals`: What an event makes of a request to stop.
* `Worker.Fresh`, `Node.Fresh`: Who has just come.
* `Cluster.Goes`, `Cluster.Manned`: A node that goes on with its workers, and who comes and goes.
* `Cluster.takes`, `Cluster.turnsOf`: The turns of one worker in a run.
* `Cluster.Moves`: What becomes of a worker by an event.
* `Cluster.Lasting`: A law that all events keep.

## Theorems

* `act_cases`: An event is the turn of one worker, or nodes go on, come and are replaced.
* `followed_step`: A worker that is not ended is found again.
* `origin_step`: Where a worker comes from.
* `Lasting.run`: A law that all events keep is true of everyone in every run.
-/

namespace OutboxCluster

/-- Who has just come has done nothing and has seen no request to stop. -/
structure Worker.Fresh (w : Worker) : Prop where
  waits : w.wait = .held ∨ w.wait = .launched
  seen : w.seen = 0

/-- A node that has just come, or has just started. -/
structure Node.Fresh (node : Node) : Prop where
  signal : node.body.signal = {}
  workers : ∀ w ∈ node.body.workers, w.Fresh

/-- Who takes its turn watches the same request afterwards. -/
theorem Body.signal_setWorker (b : Body) (i : Nat) (w : Worker) :
    (b.setWorker i w).signal = b.signal := by
  cases b with
  | strategy s separate =>
      rcases s with ⟨settings, running⟩
      cases running <;> rfl
  | single w₀ signal => rfl

/-- A strategy that starts comes with a request of its own. -/
theorem Strategy.start_running {ω : Type} (s : Strategy ω)
    (make : Validated → Option Assignment → ω) :
    (s.start make).strategy = s ∨
      ∃ scheduler, (s.start make).strategy.running = some { scheduler } := by
  unfold start
  split
  · exact Or.inl rfl
  · split
    · exact Or.inl rfl
    · split
      · exact Or.inl rfl
      · dsimp only
        split
        · exact Or.inl rfl
        · exact Or.inr ⟨_, rfl⟩

namespace Cluster

/-- What an event makes of the request to stop that the workers of a node watch. -/
inductive Event.Signals (name : String) : Event → Signal → Signal → Prop where
  | same (e : Event) (σ : Signal) : Signals name e σ σ
  | send (raised : Bool) (σ : Signal) : Signals name (.send name raised) σ (σ.send raised)
  | drop (σ : Signal) : Signals name (.dropSignal name) σ { σ with dropped := true }
  | drain (σ : Signal) : Signals name (.drain name) σ (σ.send true)

/-- A node goes on with its workers, which do not take their turns. -/
structure Goes (e : Event) (node node' : Node) : Prop where
  name_eq : node'.host.name = node.host.name
  signals : e.Signals node.host.name node.body.signal node'.body.signal
  crew : List.Forall₂ (Shifted e.Ends) node.crew node'.crew

/-- Nodes go on, apart from those that are ended or have no workers, and others have just
    come. -/
structure Manned (e : Event) (c c' : Cluster) : Prop where
  stay : ∀ node ∈ c.nodes, (e.Ends node.host.name ∨ node.body.workers = []) ∨
    ∃ node' ∈ c'.nodes, Goes e node node'
  came : ∀ node' ∈ c'.nodes, node'.Fresh ∨ ∃ node ∈ c.nodes, Goes e node node'

variable {bound : Nat} {c c' : Cluster} {e : Event} {name : String} {node node' : Node}

/-- A node of which only the host changes, and not its name. -/
theorem Goes.of_body_eq (hname : node'.host.name = node.host.name)
    (hbody : node'.body = node.body) : Goes e node node' := by
  refine ⟨hname, ?_, ?_⟩
  · rw [hbody]
    exact .same _ _
  · rw [Node.crew, Node.crew, hbody, hname]
    exact List.forall₂_same.mpr fun p _ => .same p

/-- A node whose request to stop changes, and nothing else. -/
theorem Goes.of_workers_eq (hname : node'.host.name = node.host.name)
    (hworkers : node'.body.workers = node.body.workers)
    (hsignals : e.Signals node.host.name node.body.signal node'.body.signal) :
    Goes e node node' := by
  refine ⟨hname, hsignals, ?_⟩
  rw [Node.crew, Node.crew, hworkers, hname]
  exact List.forall₂_same.mpr fun p _ => .same p

namespace Manned

theorem of_nodes_eq (hnodes : c'.nodes = c.nodes) : Manned e c c' where
  stay := fun node hnode => Or.inr ⟨node, hnodes ▸ hnode, .of_body_eq rfl rfl⟩
  came := fun node hnode => Or.inr ⟨node, hnodes ▸ hnode, .of_body_eq rfl rfl⟩

/-- The nodes of one name go on, or start afresh without anybody to leave behind. -/
theorem modifyNode {change : Node → Node} (ns : List Notice)
    (hchange : ∀ n ∈ c.nodes, n.host.name = name → Goes e n (change n) ∨
      (e.Ends name ∨ n.body.workers = []) ∧ (change n).Fresh) :
    Manned e c ((c.modifyNode name change).report ns) where
  stay := by
    intro n hn
    by_cases hname : n.host.name = name
    · rcases hchange n hn hname with hgoes | ⟨hends, _⟩
      · refine Or.inr ⟨change n, List.mem_map.mpr ⟨n, hn, if_pos hname⟩, hgoes⟩
      · exact Or.inl (hname ▸ hends)
    · exact Or.inr ⟨n, List.mem_map.mpr ⟨n, hn, if_neg hname⟩, .of_body_eq rfl rfl⟩
  came := by
    intro n' hn'
    rcases List.mem_map.mp hn' with ⟨n, hn, rfl⟩
    by_cases hname : n.host.name = name
    · rw [if_pos hname]
      exact (hchange n hn hname).symm.imp And.right fun hgoes => ⟨n, hn, hgoes⟩
    · rw [if_neg hname]
      exact Or.inr ⟨n, hn, .of_body_eq rfl rfl⟩

theorem addNode (hends : e.Ends node.host.name) (hfresh : node.Fresh) :
    Manned e c (c.addNode node) where
  stay := by
    intro n hn
    by_cases hname : n.host.name = node.host.name
    · exact Or.inl (Or.inl (hname ▸ hends))
    · refine Or.inr ⟨n, List.mem_append_left _ (List.mem_filter.mpr ⟨hn, ?_⟩), .of_body_eq rfl rfl⟩
      exact bne_iff_ne.mpr hname
  came := by
    intro n' hn'
    rcases List.mem_append.mp hn' with hbefore | hnew
    · exact Or.inr ⟨n', (List.mem_filter.mp hbefore).1, .of_body_eq rfl rfl⟩
    · rw [List.mem_singleton.mp hnew]
      exact Or.inl hfresh

/-- A single worker is started or ended, or its request to stop changes. -/
theorem modifySingle {change : Worker → Signal → Worker × Signal}
    (hshifted : ∀ w σ, Shifted e.Ends (name, w) (name, (change w σ).1))
    (hsignals : ∀ w σ, e.Signals name σ (change w σ).2) :
    Manned e c (c.modifySingle name change) := by
  refine modifyNode [] fun n _ hname => Or.inl ?_
  cases hbody : n.body with
  | strategy s separate => exact .of_body_eq rfl rfl
  | single w σ =>
      refine ⟨rfl, ?_, ?_⟩
      · rw [hname, hbody]
        exact hsignals w σ
      · rw [Node.crew, Node.crew, hbody, hname]
        exact List.Forall₂.cons (hshifted w σ) List.Forall₂.nil

theorem start (h : c.Distinct) (name : String) : Manned (.start name) c (c.start name).2 := by
  unfold Cluster.start
  cases hfind : c.find? name with
  | none => exact of_nodes_eq rfl
  | some node =>
      dsimp only
      cases hbody : node.body with
      | single w σ =>
          refine modifyNode [] fun n hn hname => Or.inl ?_
          rw [h.eq_of_find? hfind hn hname]
          refine ⟨rfl, ?_, ?_⟩
          · rw [hbody]
            exact .same _ _
          · rw [Node.crew, Node.crew, hbody]
            refine List.Forall₂.cons ?_ List.Forall₂.nil
            show Shifted _ (node.host.name, w) (node.host.name, if w.wait = .held then _ else w)
            split
            · exact .started ‹_›
            · exact .same _
      | strategy s separate =>
          dsimp only
          generalize hmake : (fun v a =>
            ({ Worker.ofSettings v (processorName a) a c.now with
              wait := .launched } : Worker)) = make
          refine modifyNode _ fun n hn hname => ?_
          obtain rfl := h.eq_of_find? hfind hn hname
          rcases s.start_running make with heq | ⟨scheduler, hrunning⟩
          · refine Or.inl (.of_body_eq rfl ?_)
            rw [heq, hbody]
          rcases s.start_cases make with heq | ⟨hnone, v, _, hworkers⟩
          · refine Or.inl (.of_body_eq rfl ?_)
            rw [heq, hbody]
          · -- A strategy that was not running has had nobody.
            refine Or.inr ⟨Or.inr ?_, ?_, fun w hw => ?_⟩
            · rw [hbody, Body.workers, Strategy.workers]
              cases hr : s.running with
              | none => rfl
              | some r =>
                  rw [hr] at hnone
                  cases hnone
            · simp only [Body.signal, hrunning]
            · have hw : w ∈ (s.start make).strategy.workers := hw
              rw [hworkers] at hw
              rcases List.mem_map.mp hw with ⟨a, _, rfl⟩
              rw [← hmake]
              exact ⟨Or.inr rfl, rfl⟩

theorem drain (h : c.Distinct) (name : String) : Manned (.drain name) c (c.drain name) := by
  unfold Cluster.drain
  cases hfind : c.find? name with
  | none => exact of_nodes_eq rfl
  | some node =>
      have hnode := name_of_find? hfind
      rcases node with ⟨host, body, totalCount⟩
      cases body with
      | single w σ => exact of_nodes_eq rfl
      | strategy s separate =>
          refine modifyNode _ fun n hn hname => Or.inl ?_
          rw [h.eq_of_find? hfind hn hname]
          refine .of_workers_eq rfl s.workers_drain ?_
          rw [show host.name = name from hnode]
          -- A strategy that does not run has nobody to ask.
          rcases s with ⟨settings, running⟩
          cases running with
          | none => exact .same _ _
          | some r => exact .drain _

theorem stop (name : String) : Manned (.stop name) c (c.stop name).2 := by
  unfold Cluster.stop
  cases hfind : c.find? name with
  | none => exact of_nodes_eq rfl
  | some node =>
      rcases node with ⟨host, body, totalCount⟩
      cases body with
      | single w σ => exact of_nodes_eq rfl
      | strategy s separate =>
          refine modifyNode _ fun n _ _ => Or.inr ⟨Or.inl rfl, rfl, fun w hw => ?_⟩
          exact absurd hw List.not_mem_nil

end Manned

theorem manned_step (h : c.Distinct) (hturn : ∀ n i skip, e ≠ .turn n i skip) :
    Manned e c (c.perform e).2 := by
  -- Clocks and faults belong to the host, and its workers do not change with them.
  have hhost : ∀ name change, (∀ n : Node, (change n).host.name = n.host.name) →
      (∀ n : Node, (change n).body = n.body) → Manned e c (c.modifyNode name change) :=
    fun _ _ hname hbody =>
      Manned.modifyNode [] fun n _ _ => Or.inl (.of_body_eq (hname n) (hbody n))
  cases e with
  | addStrategy host settings separate =>
      exact Manned.addNode rfl ⟨rfl, fun w hw => absurd hw List.not_mem_nil⟩
  | addSingle host settings agent configured =>
      dsimp only [perform, Cluster.addSingle]
      cases settings.validate with
      | error e => exact .of_nodes_eq rfl
      | ok v =>
          refine Manned.addNode rfl ⟨rfl, fun w hw => ?_⟩
          rw [List.mem_singleton.mp hw]
          exact ⟨Or.inl rfl, rfl⟩
  | start name => exact Manned.start h name
  | drain name => exact Manned.drain h name
  | stop name => exact Manned.stop name
  | send name raised =>
      dsimp only [perform, send]
      exact Manned.modifySingle (fun _ _ => .same _) fun _ σ => .send raised σ
  | dropSignal name =>
      dsimp only [perform, dropSignal]
      exact Manned.modifySingle (fun _ _ => .same _) fun _ σ => .drop σ
  | abort name =>
      dsimp only [perform, Cluster.abort]
      refine Manned.modifySingle (fun w _ => ?_) fun _ _ => .same _ _
      show Shifted _ (name, w) (name, w.abort)
      unfold Worker.abort
      split
      · exact .same _
      · exact .same _
      · exact .ended rfl
  | discard name =>
      dsimp only [perform, Cluster.discard]
      refine Manned.modifySingle (fun w _ => ?_) fun _ _ => .same _ _
      show Shifted _ (name, w) (name, w.discard)
      unfold Worker.discard
      split
      · exact .ended rfl
      · exact .same _
  | moveWall name ms => exact hhost name _ (fun _ => rfl) fun _ => rfl
  | arm name point times error => exact hhost name _ (fun _ => rfl) fun _ => rfl
  | slow name point ms => exact hhost name _ (fun _ => rfl) fun _ => rfl
  | turn n i skip => exact absurd rfl (hturn n i skip)
  | tick =>
      dsimp only [perform]
      split <;> exact .of_nodes_eq rfl
  | enqueue | deleteEvents | putAgent | deleteAgents => exact .of_nodes_eq rfl

/-- In a turn no node changes its name or its request to stop. -/
theorem signals_turn (hcustody : c.Custody bound) (hopens : c.OpensWithin bound) (n i skip : Nat) :
    (c.resumeWorker n i skip).nodes.map (fun node => (node.host.name, node.body.signal)) =
      c.nodes.map fun node => (node.host.name, node.body.signal) := by
  unfold resumeWorker
  cases hnode : c.nodes[n]? with
  | none => rfl
  | some node =>
      dsimp only
      cases hworker : node.body.workers[i]? with
      | none => rfl
      | some worker =>
          have hmem := List.mem_of_getElem? hnode
          have hsettles := Scene.resume_settles (s := c.scene node worker skip) hcustody.lawful
            (hcustody.sound node hmem worker (List.mem_of_getElem? hworker)) (hopens node hmem)
          refine map_set_of_eq hnode (Prod.ext hsettles.follows.node_eq ?_)
          exact Body.signal_setWorker _ _ _

/-- Whether the event is a turn of this worker. -/
def takes (who : String × String) (c : Cluster) : Event → Bool
  | .turn n i _ => c.isDue n i && (c.nodes[n]?).any fun node =>
    node.host.name == who.1 && (node.body.workers[i]?).any fun w => w.name == who.2
  | _ => false

/-- How many turns this worker takes. -/
def turnsOf (who : String × String) (c : Cluster) : List Event → Nat
  | [] => 0
  | e :: events => (if c.takes who e then 1 else 0) + turnsOf who (c.perform e).2 events

/-- An event is a turn of one worker, which goes on by now, or nodes go on, come and are
    replaced. -/
theorem act_cases (h : c.Distinct) (hcustody : c.Custody bound) (hopens : c.OpensWithin bound)
    (e : Event) :
    (Outside e c (c.perform e).2 ∧ Manned e c (c.perform e).2 ∧ ∀ who, c.takes who e = false) ∨
    ∃ node worker skip others due, Turned bound c (c.perform e).2 node worker skip others ∧
      worker.dueAt node.body.signal = some due ∧ due ≤ c.now ∧
      (c.perform e).2.nodes.map (fun node => (node.host.name, node.body.signal)) =
        c.nodes.map (fun node => (node.host.name, node.body.signal)) ∧
      ∀ who, c.takes who e = true ↔ who = post (node.host.name, worker) := by
  -- Any event but a turn that is due comes from outside.
  have houtside : (∀ n i skip, e ≠ .turn n i skip) → _ := fun hturn =>
    And.intro (outside_step h hturn) (manned_step h hturn)
  cases e with
  | turn n i skip =>
      dsimp only [perform]
      by_cases hdue : c.isDue n i = true
      · rcases exists_due_of_isDue hdue with ⟨node, worker, due, hnode, hworker, hdueAt, hle⟩
        rcases turned_of_getElem? h hcustody hopens hnode hworker skip with ⟨others, hturned⟩
        rw [if_pos hdue]
        refine Or.inr ⟨node, worker, skip, others, due, hturned, hdueAt, hle,
          signals_turn hcustody hopens n i skip, fun who => ?_⟩
        simp only [takes, hdue, hnode, hworker, Option.any_some, Bool.true_and, Bool.and_eq_true,
          beq_iff_eq, post, Prod.ext_iff]
        exact and_congr eq_comm eq_comm
      · rw [if_neg hdue]
        refine Or.inl ⟨(Regrouped.refl h).outside rfl rfl, .of_nodes_eq rfl, fun who => ?_⟩
        simp [takes, hdue]
  | _ =>
      have hout := houtside fun _ _ _ => Event.noConfusion
      exact Or.inl ⟨hout.1, hout.2, fun _ => rfl⟩

/-- What becomes of a worker by an event: it takes its turn, or others act and it is as it was,
    apart from being started or ended. -/
inductive Moves (bound : Nat) (c : Cluster) (e : Event) (node : Node) (w : Worker) :
    Worker → Prop where
  | turn {skip due : Nat} {others : List (String × Worker)} :
      Turned bound c (c.perform e).2 node w skip others →
      w.dueAt node.body.signal = some due → due ≤ c.now →
      c.takes (post (node.host.name, w)) e = true →
      Moves bound c e node w (c.scene node w skip).resume.worker
  | between {w' : Worker} : Shifted e.Ends (node.host.name, w) (node.host.name, w') →
      (∀ x ∈ c.entered e, ∀ stamp ∈ x.stamp?, stamp.post ≠ post (node.host.name, w)) →
      c.takes (post (node.host.name, w)) e = false → Moves bound c e node w w'

section Moves

variable {w w' : Worker}

theorem Moves.name_eq (h : Moves bound c e node w w') : w'.name = w.name := by
  cases h with
  | turn hturned _ _ _ => exact hturned.settles.follows.worker_eq
  | between hshifted _ _ => exact (Prod.mk.inj hshifted.post_eq).2

theorem Moves.settings_eq (h : Moves bound c e node w w') (hcustody : c.Custody bound) :
    w'.settings = w.settings := by
  cases h with
  | turn hturned _ _ _ => exact (hturned.conducts hcustody).settings_eq
  | between hshifted _ _ => exact hshifted.settings_eq

/-- A worker that is known by its name and that of its node is found in only one place. -/
theorem Distinct.eq_of_mem_crew (h : c.Distinct) (hnode : node ∈ c.nodes)
    (hmem : (node.host.name, w) ∈ c.crew) : w ∈ node.body.workers := by
  rcases mem_crew.mp hmem with ⟨node', hnode', hname, hw⟩
  rwa [List.inj_on_of_nodup_map h.nodes hnode' hnode hname] at hw

/-- What is entered in the turn of another worker is not by this one. -/
theorem Turned.not_by {worker : Worker} {skip : Nat} {others : List (String × Worker)}
    (hturned : Turned bound c (c.perform e).2 node worker skip others) (hdistinct : c.Distinct)
    (hcustody : c.Custody bound) {p : String × Worker} (hp : p ∈ others) :
    ∀ x ∈ c.entered e, ∀ stamp ∈ x.stamp?, stamp.post ≠ post p := by
  rcases hturned.traced hcustody hdistinct with ⟨htraced, hpost, hothers⟩
  rcases htraced.signed with ⟨es, hes, hsigned⟩
  intro x hx stamp hstamp heq
  rw [hturned.entered_eq hes] at hx
  rw [hsigned x hx stamp hstamp, hpost] at heq
  exact hothers p hp heq.symm

theorem Outside.not_by (hout : Outside e c (c.perform e).2) {who : String × String} :
    ∀ x ∈ c.entered e, ∀ stamp ∈ x.stamp?, stamp.post ≠ who := by
  intro x hx stamp hstamp
  rcases hout.reports x hx with ⟨n, rfl⟩
  exact nomatch hstamp

/-- Whoever is there after the turn of a worker is that worker or was there before. -/
theorem Turned.moves {worker : Worker} {skip due : Nat} {others : List (String × Worker)}
    (hturned : Turned bound c (c.perform e).2 node worker skip others)
    (hdistinct : c.Distinct) (hcustody : c.Custody bound)
    (hdue : worker.dueAt node.body.signal = some due) (hle : due ≤ c.now)
    (htakes : ∀ who, c.takes who e = true ↔ who = post (node.host.name, worker))
    {n : Node} (hn : n ∈ c.nodes) (hw : w ∈ n.body.workers) :
    ∃ w', (n.host.name, w') ∈ (c.perform e).2.crew ∧ Moves bound c e n w w' := by
  rcases List.mem_cons.mp (hturned.crew_before.mem_iff.mp (mem_crew_of_mem hn hw))
    with hown | hother
  · obtain ⟨hname, rfl⟩ := Prod.mk.inj hown
    obtain rfl := List.inj_on_of_nodup_map hdistinct.nodes hn hturned.node_mem hname
    exact ⟨_, hturned.crew_after.mem_iff.mpr List.mem_cons_self,
      .turn hturned hdue hle ((htakes _).mpr rfl)⟩
  · refine ⟨w, hturned.crew_after.mem_iff.mpr (List.mem_cons_of_mem _ hother),
      .between (.same _) (hturned.not_by hdistinct hcustody hother) ?_⟩
    refine Bool.eq_false_iff.mpr fun htakes' => ?_
    exact (hturned.traced hcustody hdistinct).2.2 _ hother ((htakes _).mp htakes')

/-- A worker that is not ended is found again under its name. It watches the same request to
    stop, which may have changed, and it has taken its turn or is as it was. -/
theorem followed_step (hdistinct : c.Distinct) (hcustody : c.Custody bound)
    (hopens : c.OpensWithin bound) (hnode : node ∈ c.nodes) (hw : w ∈ node.body.workers)
    (hstays : ¬ e.Ends node.host.name) :
    ∃ node' ∈ (c.perform e).2.nodes, ∃ w' ∈ node'.body.workers,
      node'.host.name = node.host.name ∧
      e.Signals node.host.name node.body.signal node'.body.signal ∧ Moves bound c e node w w' := by
  rcases act_cases hdistinct hcustody hopens e with ⟨hout, hmanned, htakes⟩ |
    ⟨node₁, worker, skip, others, due, hturned, hdue, hle, hsignals, htakes⟩
  · rcases hmanned.stay node hnode with (hends | hnobody) | ⟨node', hnode', hgoes⟩
    · exact absurd hends hstays
    · exact absurd hw (hnobody ▸ List.not_mem_nil)
    · have hmem : (node.host.name, w) ∈ node.crew := List.mem_map.mpr ⟨w, hw, rfl⟩
      -- The crew goes over place by place, so the worker is found at the place where it was.
      rcases List.mem_iff_getElem.mp hmem with ⟨i, hi, heq⟩
      have hi' : i < node'.crew.length := hgoes.crew.length_eq ▸ hi
      have hshifted := hgoes.crew.get hi hi'
      rcases List.mem_map.mp (List.getElem_mem hi') with ⟨w', hw', heq'⟩
      rw [List.get_eq_getElem, List.get_eq_getElem, heq, ← heq', hgoes.name_eq] at hshifted
      exact ⟨node', hnode', w', hw', hgoes.name_eq, hgoes.signals,
        .between hshifted hout.not_by (htakes _)⟩
  · rcases hturned.moves hdistinct hcustody hdue hle htakes hnode hw with ⟨w', hmem, hmoves⟩
    have hsame : (node.host.name, node.body.signal) ∈
        (c.perform e).2.nodes.map fun n => (n.host.name, n.body.signal) := by
      rw [hsignals]
      exact List.mem_map.mpr ⟨node, hnode, rfl⟩
    rcases List.mem_map.mp hsame with ⟨node', hnode', heq⟩
    obtain ⟨hname, hsignal⟩ := Prod.mk.inj heq
    refine ⟨node', hnode', w', ?_, hname, ?_, hmoves⟩
    · refine hturned.distinct.eq_of_mem_crew hnode' ?_
      rw [hname]
      exact hmem
    · rw [hsignal]
      exact .same _ _

/-- Whoever is there after an event was there before, or has just come. -/
theorem origin_step (hdistinct : c.Distinct) (hcustody : c.Custody bound)
    (hopens : c.OpensWithin bound) (hnode : node' ∈ (c.perform e).2.nodes)
    (hw : w' ∈ node'.body.workers) :
    node'.Fresh ∨ ∃ node ∈ c.nodes, ∃ w ∈ node.body.workers, node'.host.name = node.host.name ∧
      e.Signals node.host.name node.body.signal node'.body.signal ∧ Moves bound c e node w w' := by
  rcases act_cases hdistinct hcustody hopens e with ⟨hout, hmanned, htakes⟩ |
    ⟨node₁, worker, skip, others, due, hturned, hdue, hle, hsignals, htakes⟩
  · refine (hmanned.came node' hnode).imp_right fun ⟨node, hnode, hgoes⟩ => ?_
    have hmem : (node'.host.name, w') ∈ node'.crew := List.mem_map.mpr ⟨w', hw, rfl⟩
    rcases List.mem_iff_getElem.mp hmem with ⟨i, hi, heq⟩
    have hi' : i < node.crew.length := hgoes.crew.length_eq.symm ▸ hi
    have hshifted := hgoes.crew.get hi' hi
    rcases List.mem_map.mp (List.getElem_mem hi') with ⟨w, hw', heq'⟩
    rw [List.get_eq_getElem, List.get_eq_getElem, heq, ← heq', hgoes.name_eq] at hshifted
    exact ⟨node, hnode, w, hw', hgoes.name_eq, hgoes.signals,
      .between hshifted hout.not_by (htakes _)⟩
  · refine Or.inr ?_
    have hsame : (node'.host.name, node'.body.signal) ∈
        c.nodes.map fun n => (n.host.name, n.body.signal) := by
      rw [← hsignals]
      exact List.mem_map.mpr ⟨node', hnode, rfl⟩
    rcases List.mem_map.mp hsame with ⟨node, hnode₀, heq⟩
    obtain ⟨hname, hsignal⟩ := Prod.mk.inj heq
    -- Before the turn there was somebody of this name at the node.
    have hbefore : ∃ w ∈ node.body.workers, w.name = w'.name := by
      rcases List.mem_cons.mp (hturned.crew_after.mem_iff.mp (mem_crew_of_mem hnode hw))
        with hown | hother
      · obtain ⟨hname₁, rfl⟩ := Prod.mk.inj hown
        refine ⟨worker, hdistinct.eq_of_mem_crew hnode₀ ?_, hturned.settles.follows.worker_eq.symm⟩
        rw [hname, hname₁]
        exact mem_crew_of_mem hturned.node_mem hturned.worker_mem
      · refine ⟨w', hdistinct.eq_of_mem_crew hnode₀ ?_, rfl⟩
        rw [hname]
        exact hturned.crew_before.mem_iff.mpr (List.mem_cons_of_mem _ hother)
    rcases hbefore with ⟨w, hw₀, hwname⟩
    rcases hturned.moves hdistinct hcustody hdue hle htakes hnode₀ hw₀ with ⟨w'', hmem, hmoves⟩
    have hw'' : w'' ∈ node'.body.workers := by
      refine hturned.distinct.eq_of_mem_crew hnode ?_
      rw [← hname]
      exact hmem
    obtain rfl := List.inj_on_of_nodup_map (hturned.distinct.workers node' hnode) hw'' hw
      (hmoves.name_eq.trans hwname)
    refine ⟨node, hnode₀, w, hw₀, hname.symm, ?_, hmoves⟩
    rw [hsignal]
    exact .same _ _

end Moves

/-- A law about a worker and the request to stop that it watches, which holds of whoever has just
    come and which everything that happens leaves true. -/
structure Lasting (P : Signal → Worker → Prop) : Prop where
  fresh : ∀ w, w.Fresh → P {} w
  send : ∀ σ raised w, P σ w → P (σ.send raised) w
  drop : ∀ σ w, P σ w → P { σ with dropped := true } w
  started : ∀ σ w, P σ w → w.wait = .held → P σ { w with wait := .launched }
  ended : ∀ σ w, P σ w → P σ { w with wait := .over .aborted }
  turn : ∀ (bound : Nat) (s : Scene) (settings : Settings),
    s.worker.Sound s.host.name s.journal s.now bound →
    settings.validate = .ok s.worker.settings →
    (∃ first, s.worker.dueAt s.signal = some first ∧ first ≤ s.now) → P s.signal s.worker →
    P s.signal s.resume.worker

namespace Lasting

variable {P : Signal → Worker → Prop} {w w' : Worker} {events : List Event}

theorem signals (h : Lasting P) {σ σ' : Signal} (hsignals : e.Signals name σ σ') (hP : P σ w) :
    P σ' w := by
  cases hsignals with
  | same => exact hP
  | send raised => exact h.send σ raised w hP
  | drop => exact h.drop σ w hP
  | drain => exact h.send σ true w hP

theorem moves (h : Lasting P) (hchecked : c.Checked) (hcustody : c.Custody bound)
    (hnode : node ∈ c.nodes) (hw : w ∈ node.body.workers)
    (hmoves : Moves bound c e node w w') (hP : P node.body.signal w) : P node.body.signal w' := by
  cases hmoves with
  | @turn skip due others hturned hdue hle _ =>
      rcases hchecked _ (mem_crew_of_mem hnode hw) with ⟨settings, hvalid⟩
      exact h.turn bound (c.scene node w skip) settings (hcustody.sound node hnode w hw) hvalid
        ⟨due, hdue, hle⟩ hP
  | between hshifted _ _ =>
      cases hshifted with
      | same => exact hP
      | started hheld => exact h.started _ w hP hheld
      | ended _ => exact h.ended _ w hP

theorem step (h : Lasting P) (hdistinct : c.Distinct) (hchecked : c.Checked)
    (hcustody : c.Custody bound) (hopens : c.OpensWithin bound)
    (hP : ∀ node ∈ c.nodes, ∀ w ∈ node.body.workers, P node.body.signal w) :
    ∀ node ∈ (c.perform e).2.nodes, ∀ w ∈ node.body.workers, P node.body.signal w := by
  intro node' hnode' w' hw'
  rcases origin_step hdistinct hcustody hopens hnode' hw'
    with hfresh | ⟨node, hnode, w, hw, _, hsignals, hmoves⟩
  · rw [hfresh.signal]
    exact h.fresh w' (hfresh.workers w' hw')
  · exact h.signals hsignals (h.moves hchecked hcustody hnode hw hmoves (hP node hnode w hw))

/-- What every event keeps is true of all workers in every run. -/
theorem run (h : Lasting P) (hdistinct : c.Distinct) (hchecked : c.Checked)
    (hcustody : c.Custody bound) (hopens : Always (OpensWithin bound) c events)
    (hP : ∀ node ∈ c.nodes, ∀ w ∈ node.body.workers, P node.body.signal w) :
    ∀ node ∈ (c.run events).nodes, ∀ w ∈ node.body.workers, P node.body.signal w := by
  induction events generalizing c with
  | nil => exact hP
  | cons e events ih =>
      exact ih (distinct_step hdistinct hcustody hopens.1 e)
        (checked_step hchecked hdistinct hcustody hopens.1 e)
        (custody_step hcustody hopens.1 e) hopens.2
        (h.step hdistinct hchecked hcustody hopens.1 hP)

end Lasting

end Cluster

end OutboxCluster
