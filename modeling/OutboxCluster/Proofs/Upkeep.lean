import OutboxCluster.Proofs.Attended

/-!
# Clusters in which Nothing Fails

The workers of a cluster share one table of agents, and what each of them knows of its
record depends on what the others do to the table. Nobody can remove the record of
another one before its lease is over, and nobody can take it for its own, so whoever
keeps up its lease has a record that says what it has published. That is the invariant
`Upkept`. Its other half is about the table: of the records that run no two have a hash
in common, because dynamic agents agree on that by counting and configured ones by
giving way.

Together they say the same of the workers: one that has events in hand has a shard that
nobody else works on. The laws about events start from there.

## Main definitions

* `Host.Calm`, `Cluster.Calm`: No use of the tables fails or takes time.
* `Cluster.Prompt`: The same, where the agents may be of both kinds.
* `Cluster.Leased`: Workers keep up their leases.
* `Cluster.Upkept`: The invariant, for agents of one kind.
* `Cluster.Event.KeepsTables`: An event that leaves rows alone.

## Theorems

* `Turned.tends`: The turn of a worker keeps up its lease.
* `upkept_step`: Every event keeps the invariant.
-/

namespace OutboxCluster

/-- No use of the tables fails or takes time, and the wall clock goes with the virtual
    time. -/
structure Host.Calm (h : Host) : Prop where
  access : h.access.Calm
  prompt : h.access.faults.delays = []
  skew : h.skew = 0

instance (h : Host) : Decidable h.Calm :=
  decidable_of_iff
    (h.access.faults.armed = [] ∧ h.access.closed = false ∧ h.access.faults.delays = [] ∧
      h.skew = 0)
    ⟨fun h => ⟨⟨h.1, h.2.1⟩, h.2.2.1, h.2.2.2⟩,
      fun h => ⟨h.access.unarmed, h.access.opened, h.prompt, h.skew⟩⟩

namespace Link.Touches

variable {l l' : Link} {wall : Int} {t t' : AgentTable}

theorem ordered (h : l.Touches wall t l' t') (hord : t.Ordered) : t'.Ordered := by
  cases h with
  | nothing => exact hord
  | wrote hwrites _ _ => exact hwrites.ordered hord
  | renewed hrenews => exact hrenews.ordered hord
  | left _ htable =>
      rcases htable with rfl | rfl
      · exact hord.delete _
      · exact hord

theorem lastId_le (h : l.Touches wall t l' t') : t.lastId ≤ t'.lastId := by
  cases h with
  | nothing => exact Int.le_refl _
  | wrote hwrites _ _ => exact hwrites.lastId_le
  | renewed hrenews => exact Int.le_of_eq hrenews.lastId.symm
  | left _ htable => rcases htable with rfl | rfl <;> exact Int.le_refl _

/-- The id that a link remembers is the one from before, or a new one. -/
theorem selfId_cases (h : l.Touches wall t l' t') (hord : t.Ordered) {id : Int}
    (hself : l'.selfId = some id) : l.selfId = some id ∨ (id = t.nextId ∧ id ≤ t'.lastId) := by
  cases h with
  | nothing => exact Or.inl hself
  | @wrote me _ _ _ hwrites _ hids =>
      have hid : me.id = id := Option.some.inj hself
      rcases hids with hsame | hnew
      · exact Or.inl (hsame.trans (congrArg some hid))
      · have hheld := (hwrites.ordered hord).le_lastId _ (hwrites.holds hord)
        rw [← hid]
        exact Or.inr ⟨hnew, hheld⟩
  | renewed _ => exact Or.inl hself
  | left _ _ => exact nomatch hself

/-- The records of a role can be read, and name shards, whoever writes them. -/
theorem proper (h : l.Touches wall t l' t') (hord : t.Ordered) {role : String}
    (hproper : t.Proper role) : t'.Proper role := by
  cases h with
  | nothing => exact hproper
  | wrote hwrites _ _ =>
      refine hproper.write hord hwrites (fun hme => hwrites.sensible ?_)
      rw [← hwrites.role_eq hord, hme]
      exact hproper
  | renewed hrenews => exact hproper.renew hord hrenews
  | left _ htable =>
      rcases htable with rfl | rfl
      · exact hproper.of_subset fun _ hp _ => (Table.mem_delete.mp hp).1
      · exact hproper

/-- Of the records of a role that dynamic agents use those that run stay apart. -/
theorem parted (h : l.Touches wall t l' t') (hord : t.Ordered) {role : String}
    (hparted : t.Parted role) (hconf : l.configured = none) : t'.Parted role := by
  cases h with
  | nothing => exact hparted
  | wrote hwrites _ _ => exact hparted.writeDynamic hord hwrites (fun _ => hconf)
  | renewed hrenews => exact hparted.renew hord hrenews
  | left _ htable =>
      rcases htable with rfl | rfl
      · exact hparted.of_subset fun _ hp _ => (Table.mem_delete.mp hp).1
      · exact hparted

/-- Of those of a role that configured agents use those that run stay entitled. -/
theorem ranked (h : l.Touches wall t l' t') (hord : t.Ordered) {role : String}
    (hranked : t.Ranked role) (hconf : l.configured ≠ none) : t'.Ranked role := by
  cases h with
  | nothing => exact hranked
  | wrote hwrites hkeeps _ =>
      exact hranked.write hord hwrites (fun _ => Option.ne_none_iff_exists'.mp hconf)
        (fun _ => hkeeps hconf)
  | renewed hrenews => exact hranked.renew hord hrenews
  | left _ htable =>
      rcases htable with rfl | rfl
      · exact hranked.of_subset fun _ hp _ => (Table.mem_delete.mp hp).1
      · exact hranked

/-- Another configured agent that was entitled still is. -/
theorem entitled (h : l.Touches wall t l' t') (hord : t.Ordered) {role : String}
    (hranked : t.Ranked role) (hrole : l.role = role) (hconf : l.configured ≠ none) {a : Agent}
    (hother : l.selfId ≠ some a.id) (harole : a.role = role) (ha : t.Holds a) (ha' : t'.Holds a)
    (hent : t.Entitled role a) : t'.Entitled role a := by
  cases h with
  | nothing => exact hent
  | @wrote me _ _ _ hwrites hkeeps hids =>
      rcases Option.ne_none_iff_exists'.mp hconf with ⟨shard, hshard⟩
      refine hent.write hord hranked hwrites hrole hshard (hkeeps hconf) ha harole ha'
        (fun hid => ?_)
      -- What is written is the own record or a new one, so it is not this one.
      rcases hids with hself | hnew
      · exact hother (hself.trans (congrArg some hid.symm))
      · exact hord.nextId_not_mem (hnew ▸ hid ▸ Table.mem_ids_of_mem ha)
  | renewed hrenews => exact hent.carry fun _ hx _ => AgentTable.holds_of_renews hord hrenews hx
  | left _ htable =>
      rcases htable with rfl | rfl
      · exact hent.carry fun x hx _ => ⟨x.expiration, (Table.mem_delete.mp hx).1⟩
      · exact hent

end Link.Touches

/-- A worker that is started is as before, and of one that has come to its end nothing is
    known. -/
theorem Shifted.attended {Ends : String → Prop} {p p' : String × Worker} (h : Shifted Ends p p')
    {static : Bool} {t : AgentTable} {wall : Int} {now : Nat}
    (hattended : p.2.Attended static t wall now) : p'.2.Attended static t wall now := by
  cases h with
  | same => exact hattended
  | @started node w hheld =>
      -- Who is held has never registered.
      have hself : w.link.selfId = none := by
        have htimely := hattended.timely
        unfold Worker.Timely at htimely
        rw [hheld] at htimely
        exact htimely
      refine ⟨hattended.checked.of_same rfl rfl rfl, hself, fun _ => ?_⟩
      have hnot : w.isOver = false := by
        unfold Worker.isOver
        rw [hheld]
      rcases hattended.fit hnot with hnew | ⟨a, hreg⟩
      · exact Or.inl ⟨hself, hnew.snapshot, hnew.retained, rfl, hnew.due⟩
      · exact nomatch hself.symm.trans hreg.self
  | ended _ => exact ⟨hattended.checked.of_same rfl rfl rfl, trivial, fun hnot => nomatch hnot⟩

namespace Cluster

/-- No use of the tables fails or takes time, the clocks go together, and the agents are all
    configured or all dynamic. -/
structure Calm (static : Bool) (c : Cluster) : Prop where
  hosts : ∀ node ∈ c.nodes, node.body.workers ≠ [] → node.host.Calm
  links : ∀ p ∈ c.crew, p.2.link.configured.isSome = static
  wall_le : c.epoch + c.now ≤ maxReading

instance (static : Bool) (c : Cluster) : Decidable (c.Calm static) :=
  decidable_of_iff
    ((∀ node ∈ c.nodes, node.body.workers.isEmpty = false → node.host.Calm) ∧
      (∀ p ∈ c.crew, p.2.link.configured.isSome = static) ∧ c.epoch + c.now ≤ maxReading)
    ⟨fun h => ⟨fun node hnode hne => h.1 node hnode (List.isEmpty_eq_false_iff.mpr hne), h.2.1,
        h.2.2⟩,
      fun h => ⟨fun node hnode hne => h.hosts node hnode (List.isEmpty_eq_false_iff.mp hne),
        h.links, h.wall_le⟩⟩

/-- No use of the tables fails or takes time, and the clocks go together. -/
structure Prompt (c : Cluster) : Prop where
  hosts : ∀ node ∈ c.nodes, node.body.workers ≠ [] → node.host.Calm
  wall_le : c.epoch + c.now ≤ maxReading

theorem Calm.prompt {static : Bool} {c : Cluster} (h : c.Calm static) : c.Prompt :=
  ⟨h.hosts, h.wall_le⟩

/-- Workers keep up their leases, and each has its own record. -/
structure Leased (static : Bool) (c : Cluster) : Prop where
  ordered : c.agents.Ordered
  proper : c.agents.Proper eventProcessorRole
  workers : ∀ p ∈ c.crew, p.2.Attended static c.agents (c.epoch + c.now) c.now
  known : ∀ p ∈ c.crew, ∀ id, p.2.link.selfId = some id → id ≤ c.agents.lastId
  owners : (c.crew.filterMap fun p => p.2.link.selfId).Nodup

/-- If all agents are to be configured, they are, and those that run are entitled to it. -/
def Graded (static : Bool) (c : Cluster) : Prop :=
  static = true →
    c.agents.Ranked eventProcessorRole ∧ ∀ p ∈ c.crew, p.2.link.configured ≠ none

/-- Agents of one kind keep up their leases, and those that run are apart. -/
structure Upkept (static : Bool) (c : Cluster) : Prop extends Leased static c where
  parted : static = false → c.agents.Parted eventProcessorRole
  ranked : static = true → c.agents.Ranked eventProcessorRole

variable {static : Bool} {bound : Nat} {c c' : Cluster} {node : Node} {worker : Worker}
  {skip : Nat} {others : List (String × Worker)}

theorem Upkept.graded (h : c.Upkept static) (hcalm : c.Calm static) : c.Graded static := by
  intro hstatic
  refine ⟨h.ranked hstatic, fun p hp => ?_⟩
  rw [← Option.isSome_iff_ne_none, hcalm.links p hp]
  exact hstatic

/-- The host of a worker is calm. -/
theorem Prompt.host (h : c.Prompt) (hnode : node ∈ c.nodes)
    (hworker : worker ∈ node.body.workers) : node.host.Calm :=
  h.hosts node hnode (List.ne_nil_of_mem hworker)

theorem wall_scene (hcalm : node.host.Calm) (worker : Worker) (skip : Nat) :
    (c.scene node worker skip).wall = c.epoch + c.now := by
  show c.epoch + c.now + node.host.skew = c.epoch + c.now
  rw [hcalm.skew, Int.add_zero]

/-- What the turn of a worker asks for is there. -/
theorem Leased.served (h : c.Leased static) (hprompt : c.Prompt) (hgraded : c.Graded static)
    (hnode : node ∈ c.nodes) (hworker : worker ∈ node.body.workers) :
    (c.scene node worker skip).Served static := by
  have hhost := hprompt.host hnode hworker
  refine ⟨hhost.access, hhost.prompt, ?_, h.ordered, h.proper, fun hstatic _ => ?_⟩
  · rw [wall_scene hhost worker skip]
    exact hprompt.wall_le
  · exact (hgraded hstatic).1.entitled

/-- What is known of the worker before its turn. -/
theorem Leased.attended (h : c.Leased static) (hprompt : c.Prompt) (hnode : node ∈ c.nodes)
    (hworker : worker ∈ node.body.workers) :
    (c.scene node worker skip).worker.Attended static (c.scene node worker skip).agents
      (c.scene node worker skip).wall (c.scene node worker skip).now := by
  rw [wall_scene (hprompt.host hnode hworker) worker skip]
  exact h.workers _ (mem_crew_of_mem hnode hworker)

/-- A turn keeps up the lease of its worker. -/
theorem Turned.tends (hturned : Turned bound c c' node worker skip others) (h : c.Leased static)
    (hprompt : c.Prompt) (hgraded : c.Graded static) (hcustody : c.Custody bound)
    (hprompt' : c'.Prompt) :
    (c.scene node worker skip).Tends static (c.scene node worker skip).resume := by
  have hhost := hprompt.host hturned.node_mem hturned.worker_mem
  have hlevel : (c.scene node worker skip).Level (c.scene node worker skip).resume := by
    rcases hturned.node_after with ⟨node', hnode', hhost', hworker'⟩
    have hafter := hprompt'.host hnode' hworker'
    rw [hhost'] at hafter
    exact ⟨hafter.prompt, hafter.skew.trans hhost.skew.symm⟩
  exact Scene.resume_tends (h.served hprompt hgraded hturned.node_mem hturned.worker_mem)
    (hcustody.sound node hturned.node_mem worker hturned.worker_mem)
    (h.attended hprompt hturned.node_mem hturned.worker_mem) hlevel

/-- The others remember other records than the worker of the turn. -/
theorem Leased.other (h : c.Leased static)
    (hcrew : c.crew.Perm ((node.host.name, worker) :: others)) {p : String × Worker}
    (hp : p ∈ others) {id : Int} (hself : p.2.link.selfId = some id) :
    worker.link.selfId ≠ some id := by
  intro hsame
  have hnodup := (hcrew.filterMap fun p => p.2.link.selfId).nodup_iff.mp h.owners
  rw [List.filterMap_cons_some (f := fun p : String × Worker => p.2.link.selfId)
    (a := (node.host.name, worker)) hsame, List.nodup_cons] at hnodup
  exact hnodup.1 (List.mem_filterMap.mpr ⟨p, hp, hself⟩)

/-- What the worker of a turn does with its link and with the table. -/
theorem Turned.touches (hturned : Turned bound c c' node worker skip others) (h : c.Leased static)
    (hprompt : c.Prompt) (hgraded : c.Graded static) (hcustody : c.Custody bound)
    (hprompt' : c'.Prompt) :
    worker.link.Touches (c.epoch + c.now) c.agents
      (c.scene node worker skip).resume.worker.link c'.agents := by
  have htouches := (hturned.tends h hprompt hgraded hcustody hprompt').touches
  rw [wall_scene (hprompt.host hturned.node_mem hturned.worker_mem) worker skip,
    ← hturned.agents_eq] at htouches
  exact htouches

/-- The turn of one worker leaves the others their records. -/
theorem Leased.beside (h : c.Leased static) (hprompt : c.Prompt) (hgraded : c.Graded static)
    (hturned : Turned bound c c' node worker skip others) {l' : Link}
    (htouches : worker.link.Touches (c.epoch + c.now) c.agents l' c'.agents)
    {p : String × Worker} (hp : p ∈ others) {a : Agent}
    (hreg : p.2.Registered static a c.agents (c.epoch + c.now) c.now) :
    p.2.Registered static a c'.agents (c.epoch + c.now) c.now := by
  have hmem := mem_crew_of_mem hturned.node_mem hturned.worker_mem
  have hcrew : p ∈ c.crew := hturned.crew_before.mem_iff.mpr (List.mem_cons_of_mem _ hp)
  have hforeign := h.other hturned.crew_before hp hreg.self
  refine hreg.touched h.ordered hprompt.wall_le htouches hforeign ?_
  intro hstatic hconf hent hheld
  rcases hgraded hstatic with ⟨hranked, hconfigured⟩
  have harole := hreg.role.trans (h.workers p hcrew).checked.role
  rw [harole] at hent ⊢
  exact htouches.entitled h.ordered hranked (h.workers _ hmem).checked.role (hconfigured _ hmem)
    hforeign harole hreg.holds hheld hent

theorem Leased.turned (h : c.Leased static) (hprompt : c.Prompt) (hgraded : c.Graded static)
    (hcustody : c.Custody bound) (hprompt' : c'.Prompt)
    (hturned : Turned bound c c' node worker skip others) : c'.Leased static := by
  have htouches := hturned.touches h hprompt hgraded hcustody hprompt'
  have hattended := (hturned.tends h hprompt hgraded hcustody hprompt').attended
  have hmem := mem_crew_of_mem hturned.node_mem hturned.worker_mem
  have hcrew : ∀ p ∈ others, p ∈ c.crew := fun p hp =>
    hturned.crew_before.mem_iff.mpr (List.mem_cons_of_mem _ hp)
  rw [wall_scene (hprompt.host hturned.node_mem hturned.worker_mem) worker skip,
    ← hturned.agents_eq] at hattended
  have hord := h.ordered
  have hcrew' := hturned.crew_after
  generalize (c.scene node worker skip).resume.worker = worker' at htouches hattended hcrew'
  have hafter : ∀ p ∈ c'.crew, p = (node.host.name, worker') ∨ p ∈ others :=
    fun p hp => List.mem_cons.mp (hcrew'.mem_iff.mp hp)
  refine ⟨htouches.ordered hord, htouches.proper hord h.proper, fun p hp => ?_,
    fun p hp id hself => ?_, ?_⟩
  · rw [hturned.epoch_eq, hturned.now_eq]
    rcases hafter p hp with rfl | hother
    · exact hattended
    · have hbefore := h.workers p (hcrew p hother)
      refine ⟨hbefore.checked, hbefore.timely, fun hnot => (hbefore.fit hnot).imp id ?_⟩
      exact Exists.imp fun a hreg => h.beside hprompt hgraded hturned htouches hother hreg
  · rcases hafter p hp with rfl | hother
    · rcases htouches.selfId_cases hord hself with hbefore | ⟨_, hle⟩
      · exact Int.le_trans (h.known _ hmem id hbefore) htouches.lastId_le
      · exact hle
    · exact Int.le_trans (h.known p (hcrew p hother) id hself) htouches.lastId_le
  · have hnodup := (hturned.crew_before.filterMap fun p => p.2.link.selfId).nodup_iff.mp h.owners
    have hothers : (others.filterMap fun p => p.2.link.selfId).Nodup :=
      ((List.sublist_cons_self _ others).filterMap _).nodup hnodup
    rw [(hcrew'.filterMap fun p => p.2.link.selfId).nodup_iff, List.filterMap_cons]
    split
    · exact hothers
    · rename_i id hself
      refine List.nodup_cons.mpr ⟨fun hid => ?_, hothers⟩
      rcases List.mem_filterMap.mp hid with ⟨p, hp, hsame⟩
      -- The id is the one from before, which is nobody else's, or nobody has seen it.
      rcases htouches.selfId_cases hord hself with hbefore | ⟨hnew, _⟩
      · exact h.other hturned.crew_before hp hsame hbefore
      · have hknown := h.known p (hcrew p hp) id hsame
        have hnew : id = c.agents.lastId + 1 := hnew
        omega

theorem Upkept.turned (h : c.Upkept static) (hcalm : c.Calm static) (hcustody : c.Custody bound)
    (hcalm' : c'.Calm static) (hturned : Turned bound c c' node worker skip others) :
    c'.Upkept static := by
  have hgraded := h.graded hcalm
  have hleased := h.toLeased
  have htouches := hturned.touches hleased hcalm.prompt hgraded hcustody hcalm'.prompt
  have hkind := hcalm.links _ (mem_crew_of_mem hturned.node_mem hturned.worker_mem)
  refine ⟨hleased.turned hcalm.prompt hgraded hcustody hcalm'.prompt hturned, fun hstatic => ?_,
    fun hstatic => ?_⟩
  · refine htouches.parted h.ordered (h.parted hstatic) ?_
    rw [hstatic, Option.isSome_eq_false_iff, Option.isNone_iff_eq_none] at hkind
    exact hkind
  · refine htouches.ranked h.ordered (h.ranked hstatic) ?_
    rw [hstatic, Option.isSome_iff_ne_none] at hkind
    exact hkind

/-- An event that leaves rows of the two tables alone that are there. -/
def Event.KeepsTables : Event → Prop
  | .deleteEvents _ | .putAgent _ | .deleteAgents _ => False
  | _ => True

instance (e : Event) : Decidable e.KeepsTables :=
  match e with
  | .deleteEvents _ | .putAgent _ | .deleteAgents _ => instDecidableFalse
  | .addStrategy .. | .addSingle .. | .start _ | .drain _ | .stop _ | .send .. | .dropSignal _
  | .abort _ | .discard _ | .enqueue _ | .moveWall .. | .arm .. | .slow ..
  | .turn .. | .tick => instDecidableTrue

theorem Event.KeepsTables.agents_eq {e : Event} (h : e.KeepsTables) (t : AgentTable) :
    e.agents t = t := by
  cases e with
  | putAgent row => exact h.elim
  | deleteAgents ids => exact h.elim
  | _ => rfl

/-- Who comes has checked settings, and has not pulsed yet. -/
theorem Event.Brings.attended {e : Event} {name : String} {w : Worker} (h : e.Brings c name w)
    (static : Bool) (t : AgentTable) (wall : Int) {now : Nat} (hnow : c.now ≤ now) :
    w.Attended static t wall now := by
  rcases h.fresh with ⟨hwait, settings, v, agent, configured, hvalid, heq⟩
  have hself : w.link.selfId = none := by rw [heq]; rfl
  have hbounds := Settings.pulseExpiration_of_validate hvalid
  have hinterval := Settings.pulseInterval_of_validate hvalid
  refine ⟨⟨?_, ?_, ?_, ?_, ?_⟩, ?_, fun _ => Or.inl ⟨hself, ?_, ?_, ?_, ?_⟩⟩
  · rw [heq]
    rfl
  · rw [heq]
    rfl
  · rw [heq]
    exact hinterval.1
  · rw [heq]
    exact hinterval.2
  · rw [heq]
    exact hbounds.2
  -- A new worker has not begun, and has no record to keep up.
  · unfold Worker.Timely
    rcases hwait with hheld | hlaunched
    · rw [hheld]
      exact hself
    · rw [hlaunched]
      exact hself
  · rw [heq]
    rfl
  · rw [heq]
    rfl
  · unfold Worker.isFresh
    rcases hwait with hheld | hlaunched
    · rw [hheld]
    · rw [hlaunched]
  · rw [heq]
    exact hnow

theorem Event.Brings.selfId_eq {e : Event} {name : String} {w : Worker}
    (h : e.Brings c name w) : w.link.selfId = none := by
  rcases h.fresh with ⟨_, _, _, _, _, _, heq⟩
  rw [heq]
  rfl

/-- Between turns nothing happens to the records, and who comes has none. -/
theorem Leased.outside {e : Event} (h : c.Leased static) (hagents : c'.agents = c.agents)
    (hout : Outside e c c') : c'.Leased static := by
  refine ⟨?_, ?_, fun p hp => ?_, fun p hp id hself => ?_, ?_⟩
  · rw [hagents]
    exact h.ordered
  · rw [hagents]
    exact h.proper
  · rw [hagents, hout.epoch_eq]
    rcases hout.crew.mem_cases hp with ⟨p₀, hp₀, hshifted⟩ | hbrings
    · refine hshifted.attended ?_
      rcases hout.now_cases with hnow | ⟨hquiet, hnow⟩
      · rw [hnow]
        exact h.workers p₀ hp₀
      · -- Time passes only when nobody goes on.
        rcases mem_crew.mp hp₀ with ⟨node, hnode, _, hworker⟩
        have hlater := (h.workers p₀ hp₀).tick fun due hdue =>
          lt_of_isQuiet hquiet hnode hworker hdue
        rw [hnow, Int.natCast_add, Int.natCast_one, ← Int.add_assoc]
        exact hlater
    · refine hbrings.attended _ _ _ ?_
      rcases hout.now_cases with hnow | ⟨_, hnow⟩ <;> omega
  · rw [hagents]
    rcases hout.crew.mem_cases hp with ⟨p₀, hp₀, hshifted⟩ | hbrings
    · exact h.known p₀ hp₀ id (hshifted.link_eq ▸ hself)
    · exact nomatch hbrings.selfId_eq.symm.trans hself
  · exact hout.crew.nodup_filterMap (fun _ _ hshifted => by rw [hshifted.link_eq])
      (fun _ _ hbrings => hbrings.selfId_eq) h.owners

theorem Upkept.outside {e : Event} (h : c.Upkept static) (hkeeps : e.KeepsTables)
    (hout : Outside e c c') : c'.Upkept static := by
  have hagents : c'.agents = c.agents := hout.agents_eq.trans (hkeeps.agents_eq _)
  refine ⟨h.toLeased.outside hagents hout, ?_, ?_⟩
  · rw [hagents]
    exact h.parted
  · rw [hagents]
    exact h.ranked

/-- Every event that leaves the tables alone keeps the invariant, as long as nothing fails. -/
theorem upkept_step {e : Event} (h : c.Upkept static) (hdistinct : c.Distinct)
    (hcustody : c.Custody bound) (hopens : c.OpensWithin bound) (hkeeps : e.KeepsTables)
    (hcalm : c.Calm static) (hcalm' : (c.perform e).2.Calm static) :
    (c.perform e).2.Upkept static := by
  rcases step_cases hdistinct hcustody hopens e with hout | ⟨node, worker, skip, others, hturned⟩
  · exact h.outside hkeeps hout
  · exact h.turned hcalm hcustody hcalm' hturned

theorem leased_init (static : Bool) (epoch : Int) : ({ epoch } : Cluster).Leased static where
  ordered := Table.ordered_empty
  proper := (AgentTable.parted_empty _).proper
  workers := fun _ hp => absurd hp List.not_mem_nil
  known := fun _ hp => absurd hp List.not_mem_nil
  owners := List.nodup_nil

theorem upkept_init (static : Bool) (epoch : Int) : ({ epoch } : Cluster).Upkept static where
  toLeased := leased_init static epoch
  parted := fun _ => AgentTable.parted_empty _
  ranked := fun _ => AgentTable.ranked_empty _

end Cluster

end OutboxCluster
