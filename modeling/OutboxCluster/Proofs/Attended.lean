import OutboxCluster.Proofs.Calm
import OutboxCluster.Proofs.Configured
import OutboxCluster.Proofs.Crew
import OutboxCluster.Proofs.Landing
import OutboxCluster.Proofs.Lease
import OutboxCluster.Proofs.Report

/-!
# Leases that are Kept up

Where no use of the tables fails or takes time, a worker that lives never loses its
record. It pulses when a pulse is due, whatever else it does: it rests no longer than
until then, and while its sink has a batch it renews. Everything else that it waits for
is there at once, and no time passes before it has gone on. So at every instant the next
pulse is still to come or is due now, the lease lasts longer than that, and nobody
removes the record meanwhile.

Then the record says what the link has published, state and shard included, so the laws
about records are laws about workers. `Registered` is that, together with what makes a
configured agent safe while it waits, where all agents of the cluster are configured: once
it has run, it stays entitled to its shard (`Entitled`), and so nobody else can run in it.

A worker that was ended from outside has left its record behind. Nothing is known of it
any more, and nothing needs to be.

## Main definitions

* `Worker.New`, `Worker.Registered`: A worker before and after its first pulse.
* `Worker.Timely`: A worker waits for nothing that is later than its next pulse.
* `Worker.Attended`: What is known of every worker.
* `Link.Touches`: What a turn does with a link and with the table.
* `Scene.Ready`, `Scene.Begun`: What is known before a turn, and before one of a worker
  that has pulsed.
* `Scene.Tends`: What a turn does.

## Theorems

* `Attended.quiet_cases`: What a worker waits for when nobody goes on.
* `resume_tends`: A turn keeps up the lease.
* `Registered.touched`: The turn of one worker leaves the others registered.
-/

namespace OutboxCluster

/-- What a turn does with the link of the worker and with the table: nothing, or a pulse
    or a renewal that comes through, or a departure. -/
inductive Link.Touches (l : Link) (wall : Int) (t : AgentTable) : Link → AgentTable → Prop where
  | nothing : Touches l wall t l t
  | wrote {me : Agent} {reported : Bool} {started : Nat} {t' : AgentTable} :
      l.Writes wall t me t' → (l.configured ≠ none → l.Keeps t) →
      (l.selfId = some me.id ∨ me.id = t.nextId) → Touches l wall t (({ l with
        selfId := some me.id, conflictReported := reported } : Link).afterPulse started me) t'
  | renewed {started : Nat} {t' : AgentTable} : l.Renews wall t t' →
      Touches l wall t { l with
        failures := 0
        snapshot.leaseDeadline := some (started + l.expiration) } t'
  | left {id : Int} {t' : AgentTable} : l.selfId = some id → (t' = t.delete [id] ∨ t' = t) →
      Touches l wall t { l with selfId := none, snapshot := .departed } t'

namespace Worker

/-- Whether the worker has come to its end. -/
def isOver (w : Worker) : Bool :=
  match w.wait with
  | .over _ => true
  | _ => false

/-- Whether the worker has not begun, or waits for its first turn or for the session of a
    pulse. -/
def isFresh (w : Worker) : Bool :=
  match w.wait with
  | .held | .launched | .pulsing .. => true
  | _ => false

/-- The settings of the worker are checked, and its link goes by them. -/
structure Checked (w : Worker) : Prop where
  role : w.link.role = eventProcessorRole
  expiration : w.link.expiration = w.settings.pulseExpiration
  positive : 1 ≤ w.settings.pulseInterval
  thrice : 3 * w.settings.pulseInterval ≤ w.settings.pulseExpiration
  bounded : w.settings.pulseExpiration ≤ 604800000

/-- The worker has not pulsed yet, and its first pulse is due. -/
structure New (w : Worker) (now : Nat) : Prop where
  self : w.link.selfId = none
  snapshot : w.link.snapshot = {}
  retained : w.retained = none
  fresh : w.isFresh = true
  due : w.nextPulse ≤ now

/-- The worker has the record `a`. It says what the link has published, and it lasts
    longer than until the next pulse, by what the lease has more than the time between two
    pulses. Whether all agents are configured is a parameter. -/
structure Registered (w : Worker) (static : Bool) (a : Agent) (t : AgentTable) (wall : Int)
    (now : Nat) : Prop where
  holds : t.Holds a
  role : a.role = w.link.role
  self : w.link.selfId = some a.id
  agentId : w.link.snapshot.agentId = some a.id
  state : w.link.snapshot.state = a.state
  assignment : w.link.snapshot.assignment = a.assignment
  lease : ∃ deadline, w.link.snapshot.leaseDeadline = some deadline ∧ w.nextPulse < deadline ∧
    w.nextPulse + w.settings.pulseExpiration ≤ deadline + w.settings.pulseInterval ∧
    (a.expiration = maxReading ∨ wall + ((deadline : Int) - now) ≤ a.expiration)
  timely : now ≤ w.nextPulse
  /-- The shard of a configured agent never changes. -/
  configured : ∀ s, w.link.configured = some s → a.assignment = some s
  /-- A configured agent that has run, and so may have kept a batch, stays entitled. -/
  entitled : static = true → w.link.configured ≠ none → ∀ b, w.retained = some b →
    w.link.snapshot.Bears b → t.Entitled a.role a

/-- What the worker waits for is there at once, unless it rests or its sink has a batch.
    It rests no longer than until its next pulse. -/
def Timely (w : Worker) (wall : Int) (now : Nat) : Prop :=
  match w.wait with
  | .held | .launched => w.link.selfId = none
  | .pulsing due started wall' | .renewing due started wall' _ =>
    due ≤ now ∧ started = now ∧ wall' = wall
  | .deleted due _ _ | .leaving due _ => due ≤ now
  | .polling due _ | .deleting due _ => due ≤ now ∧ w.link.snapshot.state = .running
  | .resting wake => wake ≤ w.nextPulse
  | _ => True

/-- A worker before or after its first pulse. -/
def Fit (w : Worker) (static : Bool) (t : AgentTable) (wall : Int) (now : Nat) : Prop :=
  w.New now ∨ ∃ a, w.Registered static a t wall now

/-- What is known of a worker as long as nothing fails. -/
structure Attended (w : Worker) (static : Bool) (t : AgentTable) (wall : Int) (now : Nat) :
    Prop where
  checked : w.Checked
  timely : w.Timely wall now
  fit : w.isOver = false → w.Fit static t wall now

end Worker

namespace Worker

theorem Checked.outlasts {w : Worker} (h : w.Checked) :
    w.settings.pulseInterval < w.settings.pulseExpiration := by
  have hpositive := h.positive
  have hthrice := h.thrice
  omega

theorem Checked.of_same {w w' : Worker} (h : w.Checked) (hrole : w'.link.role = w.link.role)
    (hexpiration : w'.link.expiration = w.link.expiration) (hsettings : w'.settings = w.settings) :
    w'.Checked := by
  refine ⟨hrole.trans h.role, ?_, ?_, ?_, ?_⟩
  · rw [hexpiration, hsettings]
    exact h.expiration
  · rw [hsettings]
    exact h.positive
  · rw [hsettings]
    exact h.thrice
  · rw [hsettings]
    exact h.bounded

end Worker

namespace Worker.Registered

variable {w : Worker} {static : Bool} {a : Agent} {t : AgentTable} {wall : Int} {now : Nat}

/-- The lease is not over. -/
theorem unexpired (h : w.Registered static a t wall now) (hwall : wall ≤ maxReading) :
    wall ≤ a.expiration := by
  rcases h.lease with ⟨deadline, _, hlt, _, hmax | hle⟩
  · rw [hmax]
    exact hwall
  · have hnow := h.timely
    omega

/-- Who runs may process. -/
theorem canProcess (h : w.Registered static a t wall now)
    (hrun : w.link.snapshot.state = .running) : w.link.snapshot.canProcess now = true := by
  rcases h.lease with ⟨deadline, hdeadline, hlt, _⟩
  exact Snapshot.canProcess_iff.mpr ⟨hrun, deadline, hdeadline, Nat.lt_of_le_of_lt h.timely hlt⟩

/-- Nothing that matters here has changed but the batch that is kept. -/
theorem of_same {w' : Worker} (h : w.Registered static a t wall now) (hlink : w'.link = w.link)
    (hpulse : w'.nextPulse = w.nextPulse) (hsettings : w'.settings = w.settings)
    (hentitled : static = true → w.link.configured ≠ none → ∀ b, w'.retained = some b →
      w.link.snapshot.Bears b → t.Entitled a.role a) : w'.Registered static a t wall now := by
  refine ⟨h.holds, ?_, ?_, ?_, ?_, ?_, ?_, ?_, ?_, ?_⟩
  · rw [hlink]
    exact h.role
  · rw [hlink]
    exact h.self
  · rw [hlink]
    exact h.agentId
  · rw [hlink]
    exact h.state
  · rw [hlink]
    exact h.assignment
  · rw [hlink, hpulse, hsettings]
    exact h.lease
  · rw [hpulse]
    exact h.timely
  · rw [hlink]
    exact h.configured
  · rw [hlink]
    exact hentitled

/-- Nothing that matters here has changed, except that a batch may be dropped. -/
theorem of_kept {w' : Worker} (h : w.Registered static a t wall now) (hlink : w'.link = w.link)
    (hpulse : w'.nextPulse = w.nextPulse) (hsettings : w'.settings = w.settings)
    (hretained : w'.retained = none ∨ w'.retained = w.retained) :
    w'.Registered static a t wall now := by
  refine h.of_same hlink hpulse hsettings (fun hstatic hconf b hb => ?_)
  rcases hretained with hnone | heq
  · exact nomatch hnone.symm.trans hb
  · exact h.entitled hstatic hconf b (heq.symm.trans hb)

/-- Time passes, and a pulse is not due yet. -/
theorem later (h : w.Registered static a t wall now) (hlt : now < w.nextPulse) :
    w.Registered static a t (wall + 1) (now + 1) := by
  refine ⟨h.holds, h.role, h.self, h.agentId, h.state, h.assignment, ?_, hlt, h.configured,
    h.entitled⟩
  rcases h.lease with ⟨deadline, hdeadline, hpulse, hmargin, hmax | hle⟩
  · exact ⟨deadline, hdeadline, hpulse, hmargin, Or.inl hmax⟩
  · exact ⟨deadline, hdeadline, hpulse, hmargin, Or.inr (by omega)⟩

/-- The record is live, so a pulse goes on with it. -/
theorem goes_on (h : w.Registered static a t wall now) (hord : t.Ordered)
    (hwall : wall ≤ maxReading) {me : Agent} {t' : AgentTable}
    (hwrites : w.link.Writes wall t me t') : me.id = a.id ∧ me.role = a.role := by
  have hlive : ¬ a.row.expiration < wall := by
    have hle := h.unexpired hwall
    exact Int.not_lt.mpr hle
  exact ⟨hwrites.keeps_id h.self h.holds h.role hlive, (hwrites.role_eq hord).trans h.role.symm⟩

/-- The shard of a configured agent stays the same too, so a batch that is its own after
    a pulse was its own before. -/
theorem bears_before (h : w.Registered static a t wall now) (hord : t.Ordered)
    (hwall : wall ≤ maxReading) {me : Agent} {t' : AgentTable}
    (hwrites : w.link.Writes wall t me t')
    (hconf : w.link.configured ≠ none) {b : Batch} (hid : some me.id = b.agentId)
    (hassigned : me.assignment = b.assignment) : w.link.snapshot.Bears b := by
  rcases Option.ne_none_iff_exists'.mp hconf with ⟨shard, hshard⟩
  have hwritten := (hwrites.unblocked hord hshard).1
  refine ⟨?_, ?_⟩
  · rw [h.agentId, ← (h.goes_on hord hwall hwrites).1]
    exact hid
  · rw [h.assignment, h.configured shard hshard, ← hwritten]
    exact hassigned

/-- Another worker changes the table. -/
theorem touched (h : w.Registered static a t wall now) (hord : t.Ordered)
    (hwall : wall ≤ maxReading) {l l' : Link} {t' : AgentTable} (htouches : l.Touches wall t l' t')
    (hother : l.selfId ≠ some a.id)
    (hentitled : static = true → w.link.configured ≠ none → t.Entitled a.role a → t'.Holds a →
      t'.Entitled a.role a) : w.Registered static a t' wall now := by
  -- The record is live, so whoever is not its own link spares it.
  have hspared : t.Spares t' wall a.id := by
    cases htouches with
    | nothing => exact AgentTable.spares_refl _ _ _
    | @wrote me _ _ _ hwrites _ hids =>
        refine hwrites.spares hord (Int.le_refl wall) (fun hid => ?_)
        rcases hids with hself | hnew
        · exact hother (hself.trans (congrArg some hid.symm))
        · refine hord.nextId_not_mem ?_
          rw [← hnew, ← hid]
          exact Table.mem_ids_of_mem h.holds
    | renewed hrenews => exact hrenews.spares hord hother
    | left hself htable =>
        rcases htable with rfl | rfl
        · refine AgentTable.spares_delete (fun hid => hother ?_)
          rw [hself, hid]
        · exact AgentTable.spares_refl _ _ _
  have hholds : t'.Holds a := (hspared a.row).2 h.holds (h.unexpired hwall)
  exact ⟨hholds, h.role, h.self, h.agentId, h.state, h.assignment, h.lease, h.timely, h.configured,
    fun hstatic hconf b hb hbears =>
      hentitled hstatic hconf (h.entitled hstatic hconf b hb hbears) hholds⟩

end Worker.Registered

namespace Worker

variable {w w' : Worker} {static : Bool} {t : AgentTable} {wall : Int} {now : Nat}

/-- Whoever waits for anything but a pulse has pulsed. -/
theorem Fit.of_begun (h : w.Fit static t wall now) (hbegun : w.isFresh = false) :
    ∃ a, w.Registered static a t wall now := by
  rcases h with hnew | hreg
  · exact absurd hnew.fresh (by rw [hbegun]; exact Bool.false_ne_true)
  · exact hreg

/-- Whoever runs is registered, since a new agent waits. -/
theorem Fit.registered (h : w.Fit static t wall now) (hrun : w.link.snapshot.state = .running) :
    ∃ a, w.Registered static a t wall now := by
  rcases h with hnew | hreg
  · rw [hnew.snapshot] at hrun
    exact nomatch hrun
  · exact hreg

/-- An attempt that begins now gives a lease that lasts longer than until the next pulse. -/
theorem Checked.outlasts_pulse (h : w.Checked) (wall : Int) (now : Nat) :
    now + w.settings.pulseInterval < now + w.link.expiration ∧
    now + w.settings.pulseInterval + w.settings.pulseExpiration ≤
      now + w.link.expiration + w.settings.pulseInterval ∧
      (w.link.leaseEnd wall = maxReading ∨
        wall + (((now + w.link.expiration : Nat) : Int) - now) ≤ w.link.leaseEnd wall) := by
  have houtlasts := h.outlasts
  have hexpiration := h.expiration
  have hbounded : (w.link.expiration : Int) ≤ maxReading := by
    have hweek := h.bounded
    simp only [maxReading]
    omega
  refine ⟨by omega, by omega, ?_⟩
  rcases Link.leaseEnd_covers wall hbounded with hmax | hle
  · exact Or.inl hmax
  · exact Or.inr (by omega)

/-- A worker that does not pulse yet. -/
theorem Fit.later (h : w.Fit static t wall now) (hlt : now < w.nextPulse) :
    w.Fit static t (wall + 1) (now + 1) := by
  rcases h with hnew | ⟨a, hreg⟩
  · exact absurd hlt (Nat.not_lt.mpr hnew.due)
  · exact Or.inr ⟨a, hreg.later hlt⟩

/-- The earlier of two instants of which the first one comes. -/
theorem exists_earlier (a : Nat) (b : Option Nat) : ∃ x, earlier (some a) b = some x ∧ x ≤ a := by
  cases b with
  | none => exact ⟨a, rfl, Nat.le_refl a⟩
  | some b => exact ⟨min a b, rfl, Nat.min_le_left a b⟩

/-- When nobody goes on, a worker has not begun or has come to its end, or it rests or
    its sink has a batch, and its next pulse is still to come. -/
theorem Attended.quiet_cases (h : w.Attended static t wall now) {signal : Signal}
    (hquiet : ∀ due, w.dueAt signal = some due → now < due) :
    w.wait = .held ∨ (∃ how, w.wait = .over how) ∨
      now < w.nextPulse ∧ ((∃ h, w.wait = .applying h) ∨ ∃ wake, w.wait = .resting wake) := by
  have htimely := h.timely
  -- Whatever is there at once would let the worker go on.
  have hthere : ∀ due, w.dueAt signal = some due → ¬ due ≤ now :=
    fun due hdue hle => absurd (hquiet due hdue) (Nat.not_lt.mpr hle)
  unfold Timely at htimely
  unfold dueAt at hquiet hthere
  cases hwait : w.wait with
  | held => exact Or.inl rfl
  | «over» how => exact Or.inr (Or.inl ⟨how, rfl⟩)
  | launched =>
      rw [hwait] at hthere
      exact absurd (Nat.zero_le now) (hthere 0 rfl)
  | pulsing due started wall =>
      rw [hwait] at hthere htimely
      exact absurd htimely.1 (hthere due rfl)
  | renewing due started wall h =>
      rw [hwait] at hthere htimely
      exact absurd htimely.1 (hthere due rfl)
  | polling due cycle =>
      rw [hwait] at hthere htimely
      exact absurd htimely.1 (hthere due rfl)
  | leaving due halt =>
      rw [hwait] at hthere htimely
      exact absurd htimely (hthere due rfl)
  | deleting due h =>
      rw [hwait] at hthere htimely
      rcases exists_earlier due h.timeoutAt with ⟨x, hx, hle⟩
      exact absurd (Nat.le_trans hle htimely.1) (hthere x hx)
  | deleted due count h =>
      rw [hwait] at hthere htimely
      rcases exists_earlier due h.timeoutAt with ⟨x, hx, hle⟩
      exact absurd (Nat.le_trans hle htimely) (hthere x hx)
  | resting wake =>
      rw [hwait] at htimely hquiet hthere
      dsimp only at htimely hquiet hthere
      by_cases hsignal : signal.version ≠ w.seen ∨ signal.dropped = true
      · rw [if_pos hsignal] at hthere
        exact absurd (Nat.zero_le now) (hthere 0 rfl)
      · rw [if_neg hsignal] at hquiet
        have hlt := hquiet wake rfl
        exact Or.inr (Or.inr ⟨Nat.lt_of_lt_of_le hlt htimely, Or.inr ⟨wake, rfl⟩⟩)
  | applying h =>
      rw [hwait] at hquiet hthere
      dsimp only at hquiet hthere
      cases hongoing : h.ongoing with
      | none =>
          rw [hongoing] at hthere
          exact absurd (Nat.zero_le now) (hthere 0 rfl)
      | some ongoing =>
          rw [hongoing] at hquiet
          rcases exists_earlier (min ongoing.1 w.nextPulse)
            (earlier w.link.snapshot.leaseDeadline h.timeoutAt) with ⟨x, hx, hle⟩
          have hlt := hquiet x hx
          exact Or.inr (Or.inr ⟨by omega, Or.inl ⟨h, rfl⟩⟩)

/-- Time passes when nobody goes on. -/
theorem Attended.tick (h : w.Attended static t wall now) {signal : Signal}
    (hquiet : ∀ due, w.dueAt signal = some due → now < due) :
    w.Attended static t (wall + 1) (now + 1) := by
  have htimely := h.timely
  have hfit := h.fit
  unfold Timely at htimely
  unfold isOver at hfit
  refine ⟨h.checked, ?_, fun hnot => ?_⟩
  · unfold Timely
    rcases h.quiet_cases hquiet with hheld | ⟨how, hover⟩ | ⟨_, ⟨h', happlying⟩ | ⟨wake, hresting⟩⟩
    · rw [hheld] at htimely ⊢
      exact htimely
    · rw [hover]
      exact trivial
    · rw [happlying]
      exact trivial
    · rw [hresting] at htimely ⊢
      exact htimely
  · unfold isOver at hnot
    rcases h.quiet_cases hquiet with hheld | ⟨how, hover⟩ | ⟨hlt, hwait⟩
    · -- Who has not begun has no record, so no lease runs out.
      rw [hheld] at htimely hfit
      rcases hfit rfl with hnew | ⟨a, hreg⟩
      · exact Or.inl ⟨hnew.self, hnew.snapshot, hnew.retained, hnew.fresh,
          Nat.le_succ_of_le hnew.due⟩
      · exact nomatch htimely.symm.trans hreg.self
    · rw [hover] at hnot
      exact nomatch hnot
    · refine (hfit ?_).later hlt
      rcases hwait with ⟨h', heq⟩ | ⟨wake, heq⟩ <;> rw [heq]

end Worker

namespace Scene

/-- What is known before a turn: no use fails or takes time, and the table can be read
    and says of every configured agent that runs that it is entitled to do so. -/
structure Served (static : Bool) (s : Scene) : Prop where
  calm : s.host.access.Calm
  prompt : s.host.access.faults.delays = []
  wall_le : s.wall ≤ maxReading
  ordered : s.agents.Ordered
  proper : s.agents.Proper eventProcessorRole
  entitled : static = true → s.worker.link.configured ≠ none →
    ∀ a, s.agents.Runs eventProcessorRole a → s.agents.Entitled eventProcessorRole a

/-- What a turn does to the table and to its own worker. It gives up no batch. -/
structure Tends (static : Bool) (s s' : Scene) : Prop where
  touches : s.worker.link.Touches s.wall s.agents s'.worker.link s'.agents
  attended : s'.worker.Attended static s'.agents s.wall s.now
  losses_eq : s'.journal.losses = s.journal.losses

/-- What is known before the turn of a worker that has not come to its end. -/
structure Ready (static : Bool) (s : Scene) : Prop extends Served static s where
  checked : s.worker.Checked
  fit : s.worker.Fit static s.agents s.wall s.now

/-- What is known before the turn of a worker that has pulsed. -/
structure Begun (static : Bool) (s : Scene) : Prop extends Served static s where
  checked : s.worker.Checked
  registered : ∃ a, s.worker.Registered static a s.agents s.wall s.now

/-- The turn that has begun with `s` has not touched the table yet, and of the worker only
    what it shows, and it has given up no batch. -/
structure Stands (s s₁ : Scene) : Prop where
  now_eq : s₁.now = s.now
  epoch_eq : s₁.epoch = s.epoch
  agents_eq : s₁.agents = s.agents
  worker_eq : s₁.worker = { s.worker with state := s₁.worker.state }
  losses_eq : s₁.journal.losses = s.journal.losses

/-- After a turn still nothing takes time, and the wall clock of the node is where it was. -/
structure Level (s s' : Scene) : Prop where
  prompt : s'.host.access.faults.delays = []
  skew : s'.host.skew = s.host.skew

section Turns

variable {static : Bool} {s s₁ s' : Scene} {h : Handover}

theorem Ready.begun (hready : Ready static s) (hbegun : s.worker.isFresh = false) :
    Begun static s :=
  ⟨hready.toServed, hready.checked, hready.fit.of_begun hbegun⟩

theorem Begun.canProcess (hbegun : Begun static s)
    (hrun : s.worker.link.snapshot.state = .running) : s.canProcess = true := by
  rcases hbegun.registered with ⟨a, hreg⟩
  exact hreg.canProcess hrun

theorem Stands.refl (s : Scene) : Stands s s := ⟨rfl, rfl, rfl, rfl, rfl⟩

/-- Something is entered. -/
theorem Stands.enter (hstands : Stands s s₁) {e : Entry} (he : Journal.losses [e] = []) :
    Stands s (s₁.enter e) := by
  refine ⟨hstands.now_eq, hstands.epoch_eq, hstands.agents_eq, hstands.worker_eq, ?_⟩
  rw [← hstands.losses_eq, Scene.enter, ← List.singleton_append, Journal.losses_append, he,
    List.nil_append]

theorem Stands.becomes (hstands : Stands s s₁) (state : ProcessorState) :
    Stands s (s₁.becomes state) := by
  refine ⟨hstands.now_eq, hstands.epoch_eq, hstands.agents_eq, ?_, hstands.losses_eq⟩
  rw [Scene.becomes, hstands.worker_eq]

/-- Whether the agent may process is as before. -/
theorem Stands.canProcess_eq (hstands : Stands s s₁) : s₁.canProcess = s.canProcess := by
  rw [canProcess, canProcess, hstands.worker_eq, hstands.now_eq]

/-- Control gives up no batch. -/
theorem Marks.losses_eq {who : Stamp} {j j' : Journal} (h : Marks who j j') :
    j'.losses = j.losses := by
  have hmark : ∀ e : Entry, e.isMark = true → e.lost? = none := by
    intro e he
    cases e with
    | notice n =>
        cases n with
        | ownershipLost events => exact nomatch he
        | _ => rfl
    | _ => rfl
  rcases h with ⟨es, rfl, hes⟩
  have hnone : Journal.losses es = [] :=
    List.filterMap_eq_nil_iff.mpr fun e he => hmark e (hes e he).1
  rw [Journal.losses_append, hnone, List.nil_append]

/-- Nothing takes time. -/
theorem after_prompt (hprompt : s.host.access.faults.delays = []) (point : UsePoint) :
    s.after point = s.now := by
  unfold after Faults.delay
  rw [hprompt]
  rfl

theorem Level.wall_eq (hlevel : Level s s') (hhost : s'.host = s₁.host) (hnow : s₁.now = s.now)
    (hepoch : s₁.epoch = s.epoch) : s₁.wall = s.wall := by
  rw [wall, wall, hnow, hepoch, ← hhost, hlevel.skew]

/-- When control comes to wait, it is for something that is there, or it rests. -/
theorem Lands.timely (hlands : Lands s₁ s') (hprompt : s'.host.access.faults.delays = []) :
    s'.worker.Timely s₁.wall s₁.now := by
  rw [hlands.host_eq] at hprompt
  have hberth := hlands.berth
  unfold Berth at hberth
  unfold Worker.Timely
  cases hwait : s'.worker.wait with
  | resting wake =>
      rw [hwait] at hberth
      dsimp only
      rw [hlands.pulse_eq]
      exact hberth
  | pulsing due started wall =>
      rw [hwait] at hberth
      exact ⟨Nat.le_of_eq (hberth.1.trans (after_prompt hprompt _)), hberth.2⟩
  | polling due cycle =>
      rw [hwait] at hberth
      refine ⟨Nat.le_of_eq (hberth.1.trans (after_prompt hprompt _)), ?_⟩
      rw [hlands.link_eq]
      exact (Snapshot.canProcess_iff.mp hberth.2.2.2.2).1
  | leaving due halt =>
      rw [hwait] at hberth
      exact Nat.le_of_eq (hberth.1.trans (after_prompt hprompt _))
  -- The rest are no places for a turn to land.
  | renewing due started wall h =>
      rw [hwait] at hberth
      exact hberth.elim
  | deleting due h =>
      rw [hwait] at hberth
      exact hberth.elim
  | deleted due count h =>
      rw [hwait] at hberth
      exact hberth.elim
  | held =>
      rw [hwait] at hberth
      exact hberth.elim
  | launched =>
      rw [hwait] at hberth
      exact hberth.elim
  | _ => exact trivial

/-- Control leaves a worker attended. -/
theorem Lands.attended (hlands : Lands s₁ s') (hprompt : s'.host.access.faults.delays = [])
    (hchecked : s₁.worker.Checked)
    (hregistered : ∃ a, s₁.worker.Registered static a s₁.agents s₁.wall s₁.now) :
    s'.worker.Attended static s'.agents s₁.wall s₁.now where
  checked := by
    refine hchecked.of_same ?_ ?_ hlands.settings_eq
    · rw [hlands.link_eq]
    · rw [hlands.link_eq]
  timely := hlands.timely hprompt
  fit := by
    intro _
    rw [hlands.agents_eq]
    exact Or.inr (hregistered.imp fun _ hreg =>
      hreg.of_kept hlands.link_eq hlands.pulse_eq hlands.settings_eq hlands.retained)

/-- Control that begins with the link and the table of the turn. -/
theorem Lands.tends (hlands : Lands s₁ s') (hbegun : Begun static s) (hlevel : Level s s')
    (hnow : s₁.now = s.now) (hepoch : s₁.epoch = s.epoch) (hagents : s₁.agents = s.agents)
    (hlink : s₁.worker.link = s.worker.link) (hsettings : s₁.worker.settings = s.worker.settings)
    (hlosses : s₁.journal.losses = s.journal.losses)
    (hregistered : ∃ a, s₁.worker.Registered static a s.agents s.wall s.now) :
    Tends static s s' := by
  -- A turn takes no time, so what is known holds at the instant when control began, too.
  have hwall : s₁.wall = s.wall := hlevel.wall_eq hlands.host_eq hnow hepoch
  have hchecked : s₁.worker.Checked := by
    refine hbegun.checked.of_same ?_ ?_ hsettings
    · rw [hlink]
    · rw [hlink]
  rw [← hagents, ← hwall, ← hnow] at hregistered
  have hattended := hlands.attended hlevel.prompt hchecked hregistered
  rw [hwall, hnow] at hattended
  refine ⟨?_, hattended, hlands.marks.losses_eq.trans hlosses⟩
  rw [hlands.link_eq, hlands.agents_eq, hlink, hagents]
  exact Link.Touches.nothing

/-- Control that begins with the worker and the table of the turn. -/
theorem Stands.tends (hstands : Stands s s₁) (hlands : Lands s₁ s') (hbegun : Begun static s)
    (hlevel : Level s s') : Tends static s s' := by
  refine hlands.tends hbegun hlevel hstands.now_eq hstands.epoch_eq hstands.agents_eq ?_ ?_
    hstands.losses_eq ?_
  · rw [hstands.worker_eq]
  · rw [hstands.worker_eq]
  · rw [hstands.worker_eq]
    exact hbegun.registered.imp fun _ hreg => hreg.of_kept rfl rfl rfl (Or.inr rfl)

/-- The worker comes to wait, and nothing else that matters here has changed. -/
theorem Stands.await (hstands : Stands s s₁) (hbegun : Begun static s) {wait : Wait}
    (htimely : ({ s.worker with wait } : Worker).Timely s.wall s.now) :
    Tends static s (s₁.await wait) := by
  have hworker : (s₁.await wait).worker = { s.worker with state := s₁.worker.state, wait } := by
    rw [Scene.await, hstands.worker_eq]
  have hagents : (s₁.await wait).agents = s.agents := hstands.agents_eq
  refine ⟨?_, ⟨?_, ?_, fun _ => ?_⟩, hstands.losses_eq⟩
  · rw [hworker, hagents]
    exact Link.Touches.nothing
  · rw [hworker]
    exact hbegun.checked.of_same rfl rfl rfl
  · rw [hworker]
    exact htimely
  · rw [hworker, hagents]
    exact Or.inr (hbegun.registered.imp fun _ hreg => hreg.of_kept rfl rfl rfl (Or.inr rfl))

/-- Nobody knows a new worker, so one that is asked to stop at once comes to its end, and
    any other one pulses first. -/
theorem tends_launch (hready : Ready static s) (hself : s.worker.link.selfId = none) :
    Tends static s s.launch := by
  have hnew : s.worker.New s.now := by
    rcases hready.fit with hnew | ⟨a, hreg⟩
    · exact hnew
    · exact nomatch hself.symm.trans hreg.self
  have hchecked : ∀ {wait : Wait} {nextCycle : Nat} {state : ProcessorState},
      ({ s.worker with wait, nextCycle, state } : Worker).Checked :=
    hready.checked.of_same rfl rfl rfl
  unfold launch loop
  dsimp only [note]
  by_cases hraised : s.signal.raised = true
  · rw [if_pos hraised]
    unfold depart
    rw [if_pos (by rw [hself]; rfl)]
    exact ⟨.nothing, ⟨hchecked, trivial, fun hnot => nomatch hnot⟩, rfl⟩
  · rw [if_neg hraised, if_pos hnew.due]
    refine ⟨.nothing, ⟨hchecked, ⟨?_, rfl, rfl⟩,
      fun _ => Or.inl ⟨hself, hnew.snapshot, hnew.retained, rfl, hnew.due⟩⟩, rfl⟩
    exact Nat.le_of_eq (after_prompt hready.prompt _)

/-- A worker that runs has a record, and a configured one is entitled to its shard. So it
    may keep a batch. -/
theorem Begun.registered_keep (hbegun : Begun static s)
    (hrun : s.worker.link.snapshot.state = .running) (b : Batch) :
    ∃ a, ({ s.worker with retained := some b } : Worker).Registered static a s.agents s.wall
      s.now := by
  rcases hbegun.registered with ⟨a, hreg⟩
  have hrole : a.role = eventProcessorRole := hreg.role.trans hbegun.checked.role
  have hruns : s.agents.Runs eventProcessorRole a :=
    ⟨hreg.holds, hrole, hreg.state.symm.trans hrun⟩
  refine ⟨a, hreg.of_same rfl rfl rfl (fun hstatic hconf _ _ _ => ?_)⟩
  rw [hrole]
  exact hbegun.entitled hstatic hconf a hruns

/-- A batch fails, and may be kept. -/
theorem tends_failBatch (hbegun : Begun static s) (hstands : Stands s s₁)
    (hrun : s.worker.link.snapshot.state = .running) (halone : s.worker.retained = none)
    (error : CoordinationError) (hlevel : Level s (s₁.failBatch h error)) :
    Tends static s (s₁.failBatch h error) := by
  have halone₁ : s₁.worker.retained = none := by
    rw [hstands.worker_eq]
    exact halone
  refine (lands_failBatch halone₁ error).tends hbegun hlevel hstands.now_eq hstands.epoch_eq
    hstands.agents_eq ?_ ?_ hstands.losses_eq ?_
  · rw [hstands.worker_eq]
  · rw [hstands.worker_eq]
  · rw [hstands.worker_eq]
    exact (hbegun.registered_keep hrun h.batch.failed).imp fun _ hreg =>
      hreg.of_kept rfl rfl rfl (Or.inr rfl)

/-- The sink is done with a batch. -/
theorem tends_sinkDone (hbegun : Begun static s) (hstands : Stands s s₁)
    (hrun : s.worker.link.snapshot.state = .running) (halone : s.worker.retained = none)
    (ending : Ending) (hlevel : Level s (s₁.sinkDone h ending)) :
    Tends static s (s₁.sinkDone h ending) := by
  have hentered := hstands.enter (e := .ended s₁.stamp h.batch ending) rfl
  unfold sinkDone at hlevel ⊢
  cases ending with
  | broken => exact hentered.await hbegun trivial
  | refused message => exact tends_failBatch hbegun hentered hrun halone _ hlevel
  | accepted =>
      -- The agent is asked again before the deletion, and it may process.
      have hcan := hentered.canProcess_eq.trans (hbegun.canProcess hrun)
      dsimp only at hlevel ⊢
      rw [if_pos hcan] at hlevel ⊢
      refine (hentered.enter rfl).await hbegun ⟨?_, hrun⟩
      exact Nat.le_of_eq ((after_prompt hlevel.prompt _).trans hstands.now_eq)

/-- Whatever the worker takes up while its sink has a batch. -/
theorem tends_race (hbegun : Begun static s) (hrun : s.worker.link.snapshot.state = .running)
    (halone : s.worker.retained = none) (branches : List Branch)
    (hlevel : Level s (s.race h branches)) : Tends static s (s.race h branches) := by
  rcases race_cases s h branches with ⟨s₁, h₁, hasked, hraced⟩
  have hstands : Stands s s₁ := by
    cases hasked with
    | before => exact Stands.refl s
    | now _ =>
        refine ⟨rfl, rfl, rfl, rfl, Journal.losses_addNotices ?_⟩
        split
        · exact fun _ hn => absurd hn List.not_mem_nil
        · exact List.forall_mem_map.mpr fun _ _ => rfl
  generalize s.race h branches = s' at hraced hlevel ⊢
  cases hraced with
  | nothing => exact hstands.await hbegun trivial
  | sink _ _ => exact tends_sinkDone hbegun hstands hrun halone _ hlevel
  | renewal _ =>
      -- The session is opened at once, by the clock readings of this turn.
      refine hstands.await hbegun ⟨?_, hstands.now_eq, ?_⟩
      · split
        · exact Nat.le_of_eq hstands.now_eq
        · exact Nat.le_of_eq ((after_prompt hlevel.prompt _).trans hstands.now_eq)
      · exact hlevel.wall_eq rfl hstands.now_eq hstands.epoch_eq
  | deadline hcan =>
      exact nomatch (hstands.canProcess_eq.trans (hbegun.canProcess hrun)).symm.trans hcan
  | timeout _ _ => exact tends_failBatch hbegun hstands hrun halone _ hlevel

/-- A search is made. -/
theorem tends_poll (hbegun : Begun static s) (hrun : s.worker.link.snapshot.state = .running)
    (cycle : Cycle) (hlevel : Level s (s.poll cycle)) : Tends static s (s.poll cycle) := by
  have hstands : ∀ found, Stands s (s.searched cycle found) :=
    fun _ => ⟨rfl, rfl, rfl, rfl, rfl⟩
  rcases poll_cases s cycle with ⟨found, hlands⟩ | ⟨events, _, _, ⟨_, heq⟩ | ⟨hcan, _⟩⟩
  · exact (hstands found).tends hlands hbegun hlevel
  · rw [heq]
    exact ((hstands (some events)).becomes .applying).await hbegun trivial
  · exact nomatch (hbegun.canProcess hrun).symm.trans hcan

/-- The record that a pulse writes lasts until after the next pulse. -/
theorem Ready.registered_pulse (hready : Ready static s) {me : Agent} {t' : AgentTable}
    (hwrites : s.worker.link.Writes s.wall s.agents me t') (reported : Bool) :
    ({ s.worker with
      link := ({ s.worker.link with
        selfId := some me.id, conflictReported := reported } : Link).afterPulse s.now me
      nextPulse := s.now + s.worker.settings.pulseInterval } : Worker).Registered static me t'
        s.wall s.now where
  holds := hwrites.holds hready.ordered
  role := by
    have hrole := hwrites.role_eq hready.ordered
    exact hrole
  self := rfl
  agentId := rfl
  state := rfl
  assignment := rfl
  lease := by
    rcases hwrites.decides hready.ordered with ⟨own, live, t₁, _, hme, _⟩
    have hend : me.expiration = s.worker.link.leaseEnd s.wall := by rw [hme]; rfl
    rw [hend]
    exact ⟨s.now + s.worker.link.expiration, rfl, hready.checked.outlasts_pulse s.wall s.now⟩
  timely := Nat.le_add_right _ _
  configured := fun _ hconf => (hwrites.unblocked hready.ordered hconf).1
  entitled := by
    intro hstatic hconf b hb hbears
    rcases Option.ne_none_iff_exists'.mp hconf with ⟨shard, hshard⟩
    have hshard : s.worker.link.configured = some shard := hshard
    have hb : s.worker.retained = some b := hb
    rcases hready.fit with hnew | ⟨a, hreg⟩
    · exact nomatch hnew.retained.symm.trans hb
    · -- Agent and shard are those from before the pulse, and so is the entitlement.
      have hsame := hreg.configured shard hshard
      have hbefore := hreg.bears_before hready.ordered hready.wall_le hwrites hconf hbears.1
        hbears.2
      rcases hreg.goes_on hready.ordered hready.wall_le hwrites with ⟨hid, hrole⟩
      rw [hrole]
      exact (hreg.entitled hstatic hconf b hb hbefore).write_own hready.ordered hwrites hshard
        hsame hid

/-- The record of a configured worker has the shard of that worker. -/
theorem Ready.keeps (hready : Ready static s) (hconf : s.worker.link.configured ≠ none) :
    s.worker.link.Keeps s.agents := by
  intro own hown hself
  rcases Option.ne_none_iff_exists'.mp hconf with ⟨shard, hshard⟩
  rcases hready.fit with hnew | ⟨a, hreg⟩
  · exact nomatch hnew.self.symm.trans hself
  · have hid : a.id = own.id := Option.some.inj (hreg.self.symm.trans hself)
    rw [← AgentTable.Holds.eq_of_id_eq hready.ordered hreg.holds hown hid, hshard]
    exact hreg.configured shard hshard

/-- A pulse comes through, unless it breaks down. -/
theorem Ready.pulses (hready : Ready static s)
    (hwhole : s.breaksDown (fun l => l.pulse ⟨s.now, s.wall, s.now⟩) = false) : ∃ me reported,
    s.worker.link.Writes s.wall s.agents me
      (s.worker.link.pulse ⟨s.now, s.wall, s.now⟩ s.host.access s.agents).table ∧
    (s.worker.link.pulse ⟨s.now, s.wall, s.now⟩ s.host.access s.agents).link = ({ s.worker.link with
      selfId := some me.id, conflictReported := reported } : Link).afterPulse s.now me ∧
    (s.worker.link.selfId = some me.id ∨ me.id = s.agents.nextId) := by
  rcases hready.proper.exists_list with ⟨agents, hlist⟩
  rw [← hready.checked.role] at hlist
  exact Link.pulse_calm ⟨s.now, s.wall, s.now⟩ hready.calm hready.ordered hlist hwhole

/-- A worker that breaks down in its pulse has touched nothing. -/
theorem Ready.tends_broken (hready : Ready static s)
    (hbroken : s.breaksDown (fun l => l.pulse ⟨s.now, s.wall, s.now⟩) = true) :
    Tends static s (((s.enter (.pulsed s.stamp)).attempt fun l =>
      l.pulse ⟨s.now, s.wall, s.now⟩).await (.over .overflown)) := by
  rcases Link.pulse_of_broken hbroken with ⟨htable, hlink⟩
  refine ⟨?_, ⟨?_, trivial, fun hnot => nomatch hnot⟩,
    Journal.losses_addNotices (Link.lossless_pulse _)⟩
  · simp only [await, attempt, enter, htable, hlink]
    exact Link.Touches.nothing
  · refine hready.checked.of_same ?_ ?_ rfl
    · exact congrArg Link.role hlink
    · exact congrArg Link.expiration hlink

/-- After a pulse the worker is registered, unless it has broken down. -/
theorem tends_pulse (hready : Ready static s) (hlevel : Level s (s.pulse s.now s.wall)) :
    Tends static s (s.pulse s.now s.wall) := by
  rcases s.pulse_cases s.now s.wall with ⟨hbroken, heq⟩ | ⟨hwhole, heq⟩
  · rw [heq]
    exact hready.tends_broken hbroken
  rcases hready.pulses hwhole with ⟨me, reported, hwrites, hlink, hids⟩
  have hreg := hready.registered_pulse hwrites reported
  rw [← hlink] at hreg
  -- Control begins after the session.
  have hlands : Lands
      { (s.enter (.pulsed s.stamp)).attempt fun l => l.pulse ⟨s.now, s.wall, s.now⟩
        with worker.nextPulse := s.now + s.worker.settings.pulseInterval }
      (s.pulse s.now s.wall) := by
    rw [heq]
    exact (Rolls.refl _).cycleIfDue
  generalize hs₁ : ({ (s.enter (.pulsed s.stamp)).attempt fun l => l.pulse ⟨s.now, s.wall, s.now⟩
      with worker.nextPulse := s.now + s.worker.settings.pulseInterval } : Scene) = s₁ at hlands
  have hwall : s₁.wall = s.wall := by
    refine hlevel.wall_eq hlands.host_eq ?_ ?_ <;> rw [← hs₁] <;> rfl
  have hworker : s₁.worker.Registered static me s₁.agents s₁.wall s₁.now := by
    rw [hwall, ← hs₁]
    exact hreg
  have hlink₁ : s₁.worker.link = ({ s.worker.link with
      selfId := some me.id, conflictReported := reported } : Link).afterPulse s.now me := by
    rw [← hs₁]
    exact hlink
  have hagents₁ : s₁.agents =
      (s.worker.link.pulse ⟨s.now, s.wall, s.now⟩ s.host.access s.agents).table := by
    rw [← hs₁]
    rfl
  have hchecked : s₁.worker.Checked := by
    refine hready.checked.of_same ?_ ?_ ?_
    · rw [hlink₁]
      rfl
    · rw [hlink₁]
      rfl
    · rw [← hs₁]
      rfl
  have hattended := hlands.attended hlevel.prompt hchecked ⟨me, hworker⟩
  rw [hwall, show s₁.now = s.now by rw [← hs₁]; rfl] at hattended
  refine ⟨?_, hattended, hlands.marks.losses_eq.trans ?_⟩
  · rw [hlands.link_eq, hlands.agents_eq, hlink₁, hagents₁]
    exact Link.Touches.wrote hwrites hready.keeps hids
  · rw [← hs₁]
    exact Journal.losses_addNotices (Link.lossless_pulse _)

/-- A renewal comes through. -/
theorem Begun.renews (hbegun : Begun static s) (hrun : s.worker.link.snapshot.state = .running) :
    s.worker.link.Renews s.wall s.agents
        (s.worker.link.renew ⟨s.now, s.wall, s.now⟩ s.host.access s.agents).table ∧
      (s.worker.link.renew ⟨s.now, s.wall, s.now⟩ s.host.access s.agents).link =
        { s.worker.link with
          failures := 0
          snapshot.leaseDeadline := some (s.now + s.worker.link.expiration) } := by
  rcases hbegun.registered with ⟨a, hreg⟩
  rcases hbegun.proper.exists_list with ⟨agents, hlist⟩
  rw [← hbegun.checked.role] at hlist
  have hlive : a.isExpired s.wall = false :=
    decide_eq_false (Int.not_lt.mpr (hreg.unexpired hbegun.wall_le))
  have hstate : s.worker.link.snapshot.state ≠ .suspended := by
    rw [hrun]
    exact AgentState.noConfusion
  exact Link.renew_calm ⟨s.now, s.wall, s.now⟩ hbegun.calm hbegun.ordered hlist hreg.self
    hreg.holds hreg.role hlive hstate

/-- The record that a renewal writes lasts until after the next pulse. -/
theorem Begun.registered_renew (hbegun : Begun static s) (halone : s.worker.retained = none)
    {t' : AgentTable}
    (hrenews : s.worker.link.Renews s.wall s.agents t') : ∃ a,
    ({ s.worker with
      link := { s.worker.link with
        failures := 0
        snapshot.leaseDeadline := some (s.now + s.worker.link.expiration) }
      nextPulse := s.now + s.worker.settings.pulseInterval } : Worker).Registered static a t' s.wall
        s.now := by
  rcases hbegun.registered with ⟨a, hreg⟩
  rcases hrenews.mem_rows hbegun.ordered with ⟨me, hself, hheld, hrows⟩
  have hid : a.id = me.id := Option.some.inj (hreg.self.symm.trans hself)
  have hme : me = a := AgentTable.Holds.eq_of_id_eq hbegun.ordered hheld hreg.holds hid.symm
  rw [hme] at hrows
  -- Only the end of the lease is new.
  exact ⟨{ a with expiration := s.worker.link.leaseEnd s.wall }, (hrows _).mpr (Or.inl rfl),
    hreg.role, hreg.self, hreg.agentId, hreg.state, hreg.assignment,
    ⟨s.now + s.worker.link.expiration, rfl, hbegun.checked.outlasts_pulse s.wall s.now⟩,
    Nat.le_add_right _ _, hreg.configured, fun _ _ b hb => nomatch halone.symm.trans hb⟩

/-- The sink keeps the batch. -/
theorem tends_renew (hbegun : Begun static s) (hrun : s.worker.link.snapshot.state = .running)
    (halone : s.worker.retained = none) : Tends static s (s.renew s.now s.wall h) := by
  rcases hbegun.renews hrun with ⟨hrenews, hlink⟩
  rcases hbegun.registered_renew halone hrenews with ⟨a, hreg⟩
  have houtlasts := hbegun.checked.outlasts
  have hexpiration := hbegun.checked.expiration
  generalize hs₁ : ({ (s.enter (.renewed s.stamp)).attempt fun l => l.renew ⟨s.now, s.wall, s.now⟩
      with worker.nextPulse := s.now + s.worker.settings.pulseInterval } : Scene) = s₁
  have hlink₁ : s₁.worker.link = { s.worker.link with
        failures := 0
        snapshot.leaseDeadline := some (s.now + s.worker.link.expiration) } := by
    rw [← hs₁]
    exact hlink
  -- The deadline that the renewal has published is still to come.
  have hcan : s₁.canProcess = true := by
    have hlt : s.now < s.now + s.worker.link.expiration := by omega
    refine Snapshot.canProcess_iff.mpr ⟨?_, s.now + s.worker.link.expiration, ?_, ?_⟩
    · rw [hlink₁]
      exact hrun
    · rw [hlink₁]
    · rw [← hs₁]
      exact hlt
  have hrenew : s.renew s.now s.wall h = s₁.await (.applying h) := by
    rw [← hs₁] at hcan ⊢
    exact if_pos hcan
  rw [hrenew]
  refine ⟨?_, ⟨?_, trivial, fun _ => Or.inr ?_⟩, ?_⟩
  · show s.worker.link.Touches s.wall s.agents s₁.worker.link s₁.agents
    rw [hlink₁, ← hs₁]
    exact Link.Touches.renewed hrenews
  · have hrole : s₁.worker.link.role = s.worker.link.role := by rw [hlink₁]
    have hlasts : s₁.worker.link.expiration = s.worker.link.expiration := by rw [hlink₁]
    refine hbegun.checked.of_same hrole hlasts ?_
    rw [← hs₁]
    rfl
  · have hagents₁ : (s₁.await (.applying h)).agents =
        (s.worker.link.renew ⟨s.now, s.wall, s.now⟩ s.host.access s.agents).table := by
      rw [← hs₁]
      rfl
    rw [hagents₁]
    refine ⟨a, hreg.of_kept hlink₁ ?_ ?_ (Or.inl ?_)⟩
    · rw [← hs₁]
      rfl
    · rw [← hs₁]
      rfl
    · rw [← hs₁]
      exact halone
  · rw [← hs₁]
    exact Journal.losses_addNotices (Link.lossless_renew _)

/-- Where nothing is planned nothing fails. -/
theorem strike_unarmed (hunarmed : s.host.access.faults.armed = []) (point : UsePoint) :
    s.strike point = (none, s) := by
  unfold strike
  rw [Faults.strike_unarmed hunarmed]

/-- The events of a batch are deleted at once. -/
theorem delete_eq (hunarmed : s.host.access.faults.armed = []) {due : Nat} (hdue : due ≤ s.now) :
    s.delete h due = Scene.await
      { s.enter (.deleted s.stamp h.batch.ids (s.outbox.count h.batch.ids)) with
        outbox := s.outbox.delete h.batch.ids }
      (.deleted (s.after .afterDeleteEvents) (s.outbox.count h.batch.ids) h) := by
  unfold delete
  rw [if_pos hdue, strike_unarmed hunarmed]
  rfl

theorem tends_delete (hbegun : Begun static s) {due : Nat} (hdue : due ≤ s.now) :
    Tends static s (s.delete h due) := by
  have hstands : Stands s { s.enter (.deleted s.stamp h.batch.ids (s.outbox.count h.batch.ids)) with
      outbox := s.outbox.delete h.batch.ids } := ⟨rfl, rfl, rfl, rfl, rfl⟩
  rw [delete_eq hbegun.calm.unarmed hdue]
  exact hstands.await hbegun (Nat.le_of_eq (after_prompt hbegun.prompt _))

/-- A batch is done. -/
theorem tends_confirm (hbegun : Begun static s) {due count : Nat} (hdue : due ≤ s.now)
    (hheld : h.Held s.worker.retained s.worker.link.snapshot s.host.name s.worker.name s.journal)
    (hlevel : Level s (s.confirm h due count)) : Tends static s (s.confirm h due count) := by
  unfold confirm at hlevel ⊢
  rw [if_pos hdue] at hlevel ⊢
  refine (lands_completeBatch hheld.alone hheld.agent hheld.shard count).tends hbegun hlevel rfl rfl
    rfl rfl rfl rfl ?_
  exact hbegun.registered.imp fun _ hreg => hreg.of_kept rfl rfl rfl (Or.inr rfl)

/-- The agent leaves, and the worker comes to its end. -/
theorem tends_leave (hready : Ready static s) (halt : Option Halt) :
    Tends static s (s.leave halt) := by
  have hwait : (s.leave halt).worker.wait = .over .finished := by
    unfold leave finish
    cases halt <;> rfl
  have hlossless : (s.attempt fun l => l.leave).journal.losses = s.journal.losses :=
    Journal.losses_addNotices Link.lossless_leave
  have hsame : (s.leave halt).worker.link = (s.worker.link.leave s.host.access s.agents).link ∧
      (s.leave halt).agents = (s.worker.link.leave s.host.access s.agents).table ∧
      (s.leave halt).worker.settings = s.worker.settings ∧
      (s.leave halt).journal.losses = s.journal.losses := by
    unfold leave finish
    cases halt <;> exact ⟨rfl, rfl, rfl, hlossless⟩
  rcases hsame with ⟨hlink, hagents, hsettings, hlosses⟩
  -- The table has lost the own record at most, and whoever owns none has nothing to keep up.
  have hleaves : s.worker.link.Touches s.wall s.agents (s.leave halt).worker.link
      (s.leave halt).agents ∧ (s.leave halt).worker.link.role = s.worker.link.role ∧
      (s.leave halt).worker.link.expiration = s.worker.link.expiration := by
    rw [hlink, hagents]
    rcases (s.worker.link.leave_cases s.host.access s.agents).2 with
      ⟨_, htable, hlink'⟩ | ⟨id, hself, htable, hlink'⟩
    · rw [htable, hlink']
      exact ⟨Link.Touches.nothing, rfl, rfl⟩
    · rw [hlink']
      exact ⟨Link.Touches.left hself htable, rfl, rfl⟩
  refine ⟨hleaves.1, ⟨hready.checked.of_same hleaves.2.1 hleaves.2.2 hsettings, ?_,
    fun hnot => ?_⟩, hlosses⟩
  · unfold Worker.Timely
    rw [hwait]
    exact trivial
  · unfold Worker.isOver at hnot
    rw [hwait] at hnot
    exact nomatch hnot

/-- Every turn keeps up the lease. -/
theorem resume_tends {bound : Nat} (hserved : Served static s)
    (hsound : s.worker.Sound s.host.name s.journal s.now bound)
    (hattended : s.worker.Attended static s.agents s.wall s.now) (hlevel : Level s s.resume) :
    Tends static s s.resume := by
  have hwaits := hsound.waits
  have htimely := hattended.timely
  have hchecked := hattended.checked
  have hready : s.worker.isOver = false → Ready static s :=
    fun hnot => ⟨hserved, hchecked, hattended.fit hnot⟩
  have hbegun : s.worker.isOver = false → s.worker.isFresh = false → Begun static s :=
    fun hnot => (hready hnot).begun
  -- What a wait is for decides which of these hold, so they are opened before the cases.
  unfold Worker.isOver at hready hbegun
  unfold Worker.isFresh at hbegun
  unfold Worker.Waits at hwaits
  unfold Worker.Timely at htimely
  unfold resume at hlevel ⊢
  cases hwait : s.worker.wait with
  | held => exact ⟨Link.Touches.nothing, hattended, rfl⟩
  | «over» how => exact ⟨Link.Touches.nothing, hattended, rfl⟩
  | launched =>
      rw [hwait] at hready htimely
      exact tends_launch (hready rfl) htimely
  | resting wake =>
      rw [hwait] at hbegun hlevel
      exact (Stands.refl s).tends ((Rolls.refl s).wake wake) (hbegun rfl rfl) hlevel
  | pulsing due started wall =>
      rw [hwait] at hready hlevel htimely
      rcases htimely with ⟨_, rfl, rfl⟩
      exact tends_pulse (hready rfl) hlevel
  | polling due cycle =>
      rw [hwait] at hbegun hlevel htimely
      exact tends_poll (hbegun rfl rfl) htimely.2 cycle hlevel
  | applying h =>
      rw [hwait] at hbegun hlevel hwaits
      exact tends_race (hbegun rfl rfl) hwaits.2.1 hwaits.1.alone _ hlevel
  | renewing due started wall h =>
      rw [hwait] at hbegun htimely hwaits
      rcases htimely with ⟨_, rfl, rfl⟩
      exact tends_renew (hbegun rfl rfl) hwaits.2.1 hwaits.1.alone
  | deleting due h =>
      rw [hwait] at hbegun htimely
      exact tends_delete (hbegun rfl rfl) htimely.1
  | deleted due count h =>
      rw [hwait] at hbegun htimely hlevel hwaits
      exact tends_confirm (hbegun rfl rfl) htimely hwaits hlevel
  | leaving due halt =>
      rw [hwait] at hready
      exact tends_leave (hready rfl) halt

end Turns

end Scene

end OutboxCluster
