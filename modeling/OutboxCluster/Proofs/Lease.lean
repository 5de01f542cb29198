import OutboxCluster.Proofs.Exclusive
import OutboxCluster.Proofs.Settings

/-!
# Leases

A node goes by its snapshot, and the others go by the record. The two are
measured by different clocks and are not changed at the same time, so a node may
believe that it owns a shard when the record says otherwise. As long as the wall
clock does not go back and is never faster than the monotonic one, that belief is
sound: whoever may process events has a record that says so and whose lease is not
over.

The reason is that both ends of a lease are counted from one instant, the one
before the session. From then on the time that is left by the monotonic clock
shrinks at least as fast as the time that is left by the wall clock, and no agent
looks at the wall clock ahead of time, so nobody removes the record before its own
agent has stopped. `Link.Backed` keeps the two apart as they are in the code: what
the record says, and how long it lasts.

The sessions that insert a record are asked to commit. A link whose insertion was
taken back remembers the id all the same, and the next record inserted by anybody
has that id.

## Main definitions

* `Link.Backed`: The snapshot of a link fits the table.
* `Roster.Guarded`: The invariant.
* `Roster.Paced`, `Roster.Orderly`: The runs for which it holds.

## Theorems

* `leaseEnd_covers`: How long a lease that is written lasts.
* `Backed.later`, `Backed.spared`, `Backed.weaker`: What keeps a snapshot sound.
* `Guarded.act`: A link acts on the table.
* `guarded_step`: Every event keeps the invariant.
* `processing_is_backed`: Who may process has a live running record, and no two
  who may share a hash.
-/

namespace OutboxCluster

/-- A clock that is moved does not go above the largest reading. -/
theorem wrap_le (n : Int) : wrap n ≤ maxReading := by
  simp only [wrap, Int.bmod, maxReading]
  omega

/-- A lease lasts from the reading at which it is written for as long as the link
    says, or for ever. -/
theorem Link.leaseEnd_covers {l : Link} (now : Int)
    (hexpiration : (l.expiration : Int) ≤ maxReading) :
    l.leaseEnd now = maxReading ∨ now + l.expiration ≤ l.leaseEnd now := by
  unfold leaseEnd saturate
  simp only [minReading, maxReading] at hexpiration ⊢
  omega

/-- Shards of one total with different indices have no hash in common. -/
theorem Assignment.not_contains_both {s s' : Assignment} (htotal : s.total = s'.total)
    (hne : s ≠ s') (hash : UInt32) : ¬ (s.contains hash = true ∧ s'.contains hash = true) := by
  rintro ⟨h, h'⟩
  simp only [contains, beq_iff_eq] at h h'
  rcases s with ⟨total, index, _⟩
  rcases s' with ⟨total', index', _⟩
  dsimp only at htotal h h'
  subst htotal h h'
  exact hne rfl

/-- What a link has published fits the table. -/
structure Link.Backed (l : Link) (t : AgentTable) (wall : Int) (now : Nat) : Prop where
  /-- The link remembers the record that it has published, or none. -/
  self : l.selfId = none ∨ l.selfId = l.snapshot.agentId
  known : ∀ id, l.snapshot.agentId = some id → id ≤ t.lastId
  /-- The record of an agent that runs says what the snapshot says. -/
  agrees : l.snapshot.state = .running → ∀ id, l.snapshot.agentId = some id →
    ∀ row, (id, row) ∈ t.rows → ∃ a : Agent, (id, row) = (a.id, a.row) ∧ a.role = l.role ∧
      a.state = .running ∧ a.assignment = l.snapshot.assignment
  /-- The record of an agent that runs lasts as long as the snapshot does. -/
  lasts : l.snapshot.state = .running → ∀ deadline, l.snapshot.leaseDeadline = some deadline →
    now < deadline → ∃ id row, l.snapshot.agentId = some id ∧ (id, row) ∈ t.rows ∧
      (row.expiration = maxReading ∨ wall + ((deadline : Int) - now) ≤ row.expiration)

namespace Link.Backed

variable {l : Link} {t : AgentTable} {wall : Int} {now : Nat}

/-- A link that has published nothing, or only that it does not run. -/
theorem idle (hself : l.selfId = none ∨ l.selfId = l.snapshot.agentId)
    (hknown : ∀ id, l.snapshot.agentId = some id → id ≤ t.lastId)
    (hstate : l.snapshot.state ≠ .running) : l.Backed t wall now where
  self := hself
  known := hknown
  agrees := fun h => absurd h hstate
  lasts := fun h => absurd h hstate

/-- Time that passes no faster by the wall clock. -/
theorem later (h : l.Backed t wall now) {wall' : Int} {now' : Nat} (hforward : wall ≤ wall')
    (hslow : wall' - wall ≤ (now' : Int) - now) : l.Backed t wall' now' where
  self := h.self
  known := h.known
  agrees := h.agrees
  lasts := by
    intro hstate deadline hdeadline hlt
    have hlt' : now < deadline := by omega
    rcases h.lasts hstate deadline hdeadline hlt' with ⟨id, row, hid, hrow, hmax | hle⟩
    · exact ⟨id, row, hid, hrow, Or.inl hmax⟩
    · exact ⟨id, row, hid, hrow, Or.inr (by omega)⟩

/-- A change of the table that leaves the record alone as long as it is live. -/
theorem spared (h : l.Backed t wall now) (hwall : wall ≤ maxReading) {t' : AgentTable}
    (hlast : t.lastId ≤ t'.lastId)
    (hspares : ∀ id, l.snapshot.agentId = some id → t.Spares t' wall id) :
    l.Backed t' wall now where
  self := h.self
  known := fun id hid => Int.le_trans (h.known id hid) hlast
  agrees := fun hstate id hid row hrow => h.agrees hstate id hid row ((hspares id hid row).1 hrow)
  lasts := by
    intro hstate deadline hdeadline hlt
    rcases h.lasts hstate deadline hdeadline hlt with ⟨id, row, hid, hrow, hend⟩
    -- The record lasts at least until the deadline, so it is live now and is spared.
    have hlive : wall ≤ row.expiration := by
      rcases hend with hmax | hle
      · rw [hmax]
        exact hwall
      · omega
    exact ⟨id, row, hid, (hspares id hid row).2 hrow hlive, hend⟩

/-- A link that forgets its id, or publishes that it is suspended. -/
theorem weaker (h : l.Backed t wall now) {l' : Link} (hrole : l'.role = l.role)
    (hself : l'.selfId = none ∨ l'.selfId = l.selfId)
    (hsnapshot : l'.snapshot = l.snapshot ∨
      l'.snapshot = { l.snapshot with state := .suspended }) : l'.Backed t wall now := by
  have hagent : l'.snapshot.agentId = l.snapshot.agentId := by
    rcases hsnapshot with heq | heq <;> rw [heq]
  have hself' : l'.selfId = none ∨ l'.selfId = l'.snapshot.agentId := by
    rcases hself with hnone | heq
    · exact Or.inl hnone
    · rw [heq, hagent]
      exact h.self
  have hknown : ∀ id, l'.snapshot.agentId = some id → id ≤ t.lastId := by
    rw [hagent]
    exact h.known
  rcases hsnapshot with heq | heq
  · refine ⟨hself', hknown, ?_, ?_⟩
    · rw [heq, hrole]
      exact h.agrees
    · rw [heq]
      exact h.lasts
  · refine idle hself' hknown ?_
    rw [heq]
    exact AgentState.noConfusion

/-- Who may process events has a record that says so, and it is live. -/
theorem record (h : l.Backed t wall now) (hwall : wall ≤ maxReading)
    (hcan : l.snapshot.canProcess now = true) : ∃ a : Agent, t.Holds a ∧
      l.snapshot.agentId = some a.id ∧ a.isExpired wall = false ∧ a.role = l.role ∧
      a.state = .running ∧ a.assignment = l.snapshot.assignment := by
  rcases Snapshot.canProcess_iff.mp hcan with ⟨hstate, deadline, hdeadline, hlt⟩
  rcases h.lasts hstate deadline hdeadline hlt with ⟨id, row, hid, hrow, hend⟩
  rcases h.agrees hstate id hid row hrow with ⟨a, heq, hrole, hrun, hassigned⟩
  rw [Prod.mk.injEq] at heq
  rcases heq with ⟨rfl, rfl⟩
  refine ⟨a, hrow, hid, decide_eq_false ?_, hrole, hrun, hassigned⟩
  simp only [Agent.row] at hend
  omega

end Link.Backed

section Changes

variable {l : Link} {t t' : AgentTable} {reading wall : Int} {now : Nat} {me : Agent}

namespace Link

/-- A pulse leaves a snapshot that fits the record which it has written. -/
theorem Writes.backed (hord : t.Ordered) (h : l.Writes reading t me t') {started : Nat}
    {reported : Bool} (hexpiration : (l.expiration : Int) ≤ maxReading)
    (hslow : wall - reading ≤ (now : Int) - started) :
    Backed (({ l with selfId := some me.id, conflictReported := reported } : Link).afterPulse
      started me) t' wall now where
  self := Or.inr rfl
  known := by
    intro id hid
    rw [← Option.some.inj hid]
    exact (h.ordered hord).le_lastId _ (h.holds hord)
  agrees := by
    intro hstate id hid row hrow
    rw [← Option.some.inj hid] at hrow ⊢
    rcases (h.mem_rows hord).mp hrow with heq | ⟨hne, _⟩
    · have hrole := h.role_eq hord
      exact ⟨me, heq, hrole, hstate, rfl⟩
    · exact absurd rfl hne
  lasts := by
    intro hstate deadline hdeadline hlt
    refine ⟨me.id, me.row, rfl, h.holds hord, ?_⟩
    rw [afterPulse, Option.some.injEq] at hdeadline
    have hend : me.row.expiration = l.leaseEnd reading := by
      rcases h.decides hord with ⟨_, _, _, _, hme, _⟩
      rw [hme]
      rfl
    rw [hend]
    -- Both ends are counted from the start of the session, and the wall clock is not faster.
    rcases leaseEnd_covers reading hexpiration with hmax | hle
    · exact Or.inl hmax
    · dsimp only at hdeadline
      omega

/-- A renewal gives the record more time and changes nothing that the snapshot
    says. -/
theorem Renews.backed (hord : t.Ordered) (h : l.Renews reading t t') (hbacked : l.Backed t wall now)
    {started : Nat} (hexpiration : (l.expiration : Int) ≤ maxReading)
    (hslow : wall - reading ≤ (now : Int) - started) :
    Backed { l with
      failures := 0
      snapshot.leaseDeadline := some (started + l.expiration) } t' wall now := by
  rcases h.mem_rows hord with ⟨me, hself, hheld, hrows⟩
  have hid : l.snapshot.agentId = some me.id := by
    rcases hbacked.self with hnone | heq
    · rw [hnone] at hself
      exact nomatch hself
    · rw [← heq]
      exact hself
  refine ⟨hbacked.self, fun id => ?_, fun hstate id hid' row hrow => ?_,
    fun _ deadline hd hlt => ?_⟩
  · rw [h.lastId]
    exact hbacked.known id
  · -- The record said what the snapshot says, and only its end has moved.
    rcases hbacked.agrees hstate me.id hid me.row hheld with ⟨a, heq, hrole, hrun, hassigned⟩
    rw [Prod.mk.injEq] at heq
    rw [← Agent.row_injective heq.1 heq.2] at hrole hrun hassigned
    dsimp only at hid'
    rw [hid, Option.some.injEq] at hid'
    rcases (hrows _).mp hrow with hnew | ⟨_, hne⟩
    · exact ⟨{ me with expiration := l.leaseEnd reading }, hnew, hrole, hrun, hassigned⟩
    · exact absurd hid'.symm hne
  · refine ⟨me.id, _, hid, (hrows _).mpr (Or.inl rfl), ?_⟩
    dsimp only [Agent.row]
    dsimp only at hd
    rw [Option.some.injEq] at hd
    rcases leaseEnd_covers reading hexpiration with hmax | hle
    · exact Or.inl hmax
    · exact Or.inr (by omega)

end Link

end Changes

namespace Roster

/-- What every link has published fits the table, and no two have published the
    same record. -/
structure Guarded (m : Roster) : Prop where
  ordered : m.agents.Ordered
  readable : m.wall.now ≤ maxReading
  admissible : ∀ name member, m.find? name = some member →
    (member.link.expiration : Int) ≤ maxReading
  backed : ∀ name member, m.find? name = some member →
    member.link.Backed m.agents m.wall.now m.now
  distinct : ∀ name name' member member' id, m.find? name = some member →
    m.find? name' = some member' → member.link.snapshot.agentId = some id →
    member'.link.snapshot.agentId = some id → name = name'

theorem guarded_init {wall : WallClock} (hwall : wall.now ≤ maxReading) : Guarded { wall } where
  ordered := Table.ordered_empty
  readable := hwall
  admissible := fun _ _ hfind => absurd hfind (by simp [find?])
  backed := fun _ _ hfind => absurd hfind (by simp [find?])
  distinct := fun _ _ _ _ _ hfind => absurd hfind (by simp [find?])

namespace Guarded

variable {m : Roster}

/-- Who remembers an id has published it. -/
theorem agentId_of_selfId (h : Guarded m) {name : String} {member : Member}
    (hfind : m.find? name = some member) {id : Int} (hself : member.link.selfId = some id) :
    member.link.snapshot.agentId = some id := by
  rcases (h.backed name member hfind).self with hnone | heq
  · rw [hnone] at hself
    exact nomatch hself
  · rw [← heq]
    exact hself

/-- A link acts on the table: it spares what is not its own, and what it publishes
    fits the table and is its own record or a new one. -/
theorem act (h : Guarded m) {name : String} {member : Member}
    (hfind : m.find? name = some member) {l : Link} {access : Access} {t' : AgentTable}
    (hord : t'.Ordered) (hlast : m.agents.lastId ≤ t'.lastId)
    (hspares : ∀ id, id ≤ m.agents.lastId → member.link.selfId ≠ some id →
      m.agents.Spares t' m.wall.now id)
    (hbacked : l.Backed t' m.wall.now m.now)
    (hagent : ∀ id, l.snapshot.agentId = some id →
      member.link.snapshot.agentId = some id ∨ id = m.agents.nextId)
    (hexpiration : l.expiration = member.link.expiration) :
    Guarded ({ m with agents := t' }.setMember name { link := l, access }) := by
  -- What another link has published is neither the old record of this one nor a new one.
  have hother : ∀ name' member' id, name' ≠ name → m.find? name' = some member' →
      member'.link.snapshot.agentId = some id → l.snapshot.agentId ≠ some id := by
    intro name' member' id hne hfind' hid hsame
    rcases hagent id hsame with hown | hnew
    · exact hne (h.distinct name' name member' member id hfind' hfind hid hown)
    · have hknown := (h.backed name' member' hfind').known id hid
      simp only [Table.nextId] at hnew
      omega
  refine ⟨hord, h.readable, fun name' member' hfind' => ?_, fun name' member' hfind' => ?_,
    fun name₁ name₂ member₁ member₂ id hfind₁ hfind₂ hid₁ hid₂ => ?_⟩
  · rcases cases_setMember hfind' with ⟨rfl, rfl⟩ | ⟨_, hfind'⟩
    · dsimp only
      rw [hexpiration]
      exact h.admissible _ _ hfind
    · exact h.admissible _ _ hfind'
  · rcases cases_setMember hfind' with ⟨rfl, rfl⟩ | ⟨hne, hfind'⟩
    · exact hbacked
    · -- The change spares what others have published, because it is not the actor's own.
      have hbefore := h.backed name' member' hfind'
      refine hbefore.spared h.readable hlast (fun id hid => ?_)
      refine hspares id (hbefore.known id hid) (fun hself => hne ?_)
      exact h.distinct name' name member' member id hfind' hfind hid
        (h.agentId_of_selfId hfind hself)
  · rcases cases_setMember hfind₁ with ⟨rfl, rfl⟩ | ⟨hne₁, hbefore₁⟩ <;>
      rcases cases_setMember hfind₂ with ⟨rfl, rfl⟩ | ⟨hne₂, hbefore₂⟩
    · rfl
    · exact absurd hid₁ (hother name₂ member₂ id hne₂ hbefore₂ hid₂)
    · exact absurd hid₂ (hother name₁ member₁ id hne₁ hbefore₁ hid₁)
    · exact h.distinct name₁ name₂ member₁ member₂ id hbefore₁ hbefore₂ hid₁ hid₂

/-- A link leaves the table alone, and publishes at most that it is suspended. -/
theorem rest (h : Guarded m) {name : String} {member : Member}
    (hfind : m.find? name = some member) {l : Link} {access : Access}
    (hself : l.selfId = none ∨ l.selfId = member.link.selfId)
    (hsnapshot : l.snapshot = member.link.snapshot ∨
      l.snapshot = { member.link.snapshot with state := .suspended })
    (hrole : l.role = member.link.role) (hexpiration : l.expiration = member.link.expiration) :
    Guarded (m.setMember name { link := l, access }) := by
  refine h.act hfind h.ordered (Int.le_refl _) (fun id _ _ => AgentTable.spares_refl _ _ id)
    ((h.backed name member hfind).weaker hrole hself hsnapshot) (fun id hid => Or.inl ?_)
    hexpiration
  rcases hsnapshot with heq | heq <;> rw [heq] at hid <;> exact hid

/-- No link acts: some may be forgotten, others may add records, and time passes no
    faster by the wall clock. -/
theorem pass (h : Guarded m) {m' : Roster}
    (hmembers : ∀ name member, m'.find? name = some member → m.find? name = some member)
    (hord : m'.agents.Ordered) (hlast : m.agents.lastId ≤ m'.agents.lastId)
    (hspares : ∀ id, id ≤ m.agents.lastId → m.agents.Spares m'.agents m.wall.now id)
    (hreadable : m'.wall.now ≤ maxReading) (hforward : m.wall.now ≤ m'.wall.now)
    (hslow : m'.wall.now - m.wall.now ≤ (m'.now : Int) - m.now) : Guarded m' where
  ordered := hord
  readable := hreadable
  admissible := fun name member hfind => h.admissible name member (hmembers name member hfind)
  backed := by
    intro name member hfind
    have hbefore := h.backed name member (hmembers name member hfind)
    exact (hbefore.spared h.readable hlast
      (fun id hid => hspares id (hbefore.known id hid))).later hforward hslow
  distinct := fun name name' member member' id hfind hfind' =>
    h.distinct name name' member member' id (hmembers name member hfind)
      (hmembers name' member' hfind')

end Guarded

/-- A link that joins has a lease that checked settings can name. -/
def Event.Admissible : Event → Prop
  | .join _ _ _ expiration =>
    ∃ (s : Settings) (v : Validated), s.validate = .ok v ∧ v.pulseExpiration = expiration
  | _ => True

/-- The wall clock does not go back and is not faster than the monotonic clock,
    neither in the event nor while an attempt has waited. -/
structure Paced (m : Roster) (e : Event) : Prop where
  forward : m.wall.now ≤ (m.step e).1.wall.now
  slow : (m.step e).1.wall.now - m.wall.now ≤ ((m.step e).1.now : Int) - m.now
  waited_forward : 0 ≤ e.waited.wall
  waited_slow : e.waited.wall ≤ e.waited.mono
  waited_le : e.waited.mono ≤ m.now

instance (m : Roster) (e : Event) : Decidable (Paced m e) :=
  decidable_of_iff
    (m.wall.now ≤ (m.step e).1.wall.now ∧
      (m.step e).1.wall.now - m.wall.now ≤ ((m.step e).1.now : Int) - m.now ∧
      0 ≤ e.waited.wall ∧ e.waited.wall ≤ e.waited.mono ∧ e.waited.mono ≤ m.now)
    ⟨fun h => ⟨h.1, h.2.1, h.2.2.1, h.2.2.2.1, h.2.2.2.2⟩,
      fun h => ⟨h.forward, h.slow, h.waited_forward, h.waited_slow, h.waited_le⟩⟩

/-- Whether records are removed from outside. -/
def Event.isRemoval : Event → Bool
  | .delete _ => true
  | _ => false

/-- What a session has inserted is there afterwards. -/
def Commits (m : Roster) (e : Event) : Prop :=
  ∀ id ∈ registrations (m.step e).2, id ∈ (m.step e).1.agents.ids

instance (m : Roster) (e : Event) : Decidable (Commits m e) :=
  inferInstanceAs (Decidable (∀ id ∈ registrations (m.step e).2, id ∈ (m.step e).1.agents.ids))

/-- An event of a run in which leases are kept. -/
structure Orderly (m : Roster) (e : Event) : Prop where
  admissible : e.Admissible
  untouched : e.isRemoval = false
  paced : Paced m e
  commits : Commits m e

section Outcomes

variable {m : Roster} {name : String}

/-- A link that has just joined has published nothing. -/
theorem Guarded.join (h : Guarded m) {l : Link} (hself : l.selfId = none)
    (hsnapshot : l.snapshot = {}) (hexpiration : (l.expiration : Int) ≤ maxReading) :
    Guarded (m.setMember name { link := l }) := by
  have hnone : ∀ id, l.snapshot.agentId ≠ some id := by
    intro id
    rw [hsnapshot]
    exact fun h => nomatch h
  refine ⟨h.ordered, h.readable, fun name' member' hfind' => ?_, fun name' member' hfind' => ?_,
    fun name₁ name₂ member₁ member₂ id hfind₁ hfind₂ hid₁ hid₂ => ?_⟩
  · rcases cases_setMember hfind' with ⟨rfl, rfl⟩ | ⟨_, hbefore⟩
    · exact hexpiration
    · exact h.admissible _ _ hbefore
  · rcases cases_setMember hfind' with ⟨rfl, rfl⟩ | ⟨_, hbefore⟩
    · refine Link.Backed.idle (Or.inl hself) (fun id hid => absurd hid (hnone id)) ?_
      rw [hsnapshot]
      exact AgentState.noConfusion
    · exact h.backed _ _ hbefore
  · rcases cases_setMember hfind₁ with ⟨rfl, rfl⟩ | ⟨_, hbefore₁⟩
    · exact absurd hid₁ (hnone id)
    · rcases cases_setMember hfind₂ with ⟨rfl, rfl⟩ | ⟨_, hbefore₂⟩
      · exact absurd hid₂ (hnone id)
      · exact h.distinct name₁ name₂ member₁ member₂ id hbefore₁ hbefore₂ hid₁ hid₂

variable {member : Member} {access : Access} {t' : AgentTable}

/-- A pulse came through, with clocks that were read before its session. -/
theorem Guarded.pulse (h : Guarded m) (hfind : m.find? name = some member) {moment : Moment}
    {me : Agent} {reported : Bool} (hwrites : member.link.Writes moment.wall m.agents me t')
    (hid : member.link.selfId = some me.id ∨ me.id = m.agents.nextId)
    (hreading : moment.wall ≤ m.wall.now)
    (hslow : m.wall.now - moment.wall ≤ (m.now : Int) - moment.started) :
    Guarded ({ m with agents := t' }.setMember name
      { link := ({ member.link with
          selfId := some me.id, conflictReported := reported } : Link).afterPulse moment.started me
        access }) := by
  refine h.act hfind (hwrites.ordered h.ordered) hwrites.lastId_le
    (fun id hle hne => ?_) (hwrites.backed h.ordered (h.admissible _ _ hfind) hslow)
    (fun id hagent => ?_) rfl
  · refine hwrites.spares h.ordered hreading (fun hsame => ?_)
    rcases hid with hown | hnew
    · exact hne (hsame ▸ hown)
    · simp only [Table.nextId] at hnew
      omega
  · rw [← Option.some.inj hagent]
    rcases hid with hown | hnew
    · exact Or.inl (h.agentId_of_selfId hfind hown)
    · exact Or.inr hnew

/-- An agent left, and its record was removed or not. -/
theorem Guarded.leave (h : Guarded m) (hfind : m.find? name = some member) {id : Int}
    (hself : member.link.selfId = some id) (htable : t' = m.agents.delete [id] ∨ t' = m.agents) :
    Guarded ({ m with agents := t' }.setMember name
      { link := { member.link with selfId := none, snapshot := .departed }, access }) := by
  have hnone : ∀ id, Snapshot.departed.agentId ≠ some id := fun _ h => nomatch h
  have hbacked : Link.Backed { member.link with selfId := none, snapshot := .departed } t'
      m.wall.now m.now :=
    Link.Backed.idle (Or.inl rfl) (fun id hid => absurd hid (hnone id)) AgentState.noConfusion
  rcases htable with rfl | rfl
  · refine h.act hfind (h.ordered.delete _) (Int.le_refl _) (fun id' _ hne => ?_) hbacked
      (fun id hid => absurd hid (hnone id)) rfl
    exact AgentTable.spares_delete (fun heq => hne (heq ▸ hself))
  · exact h.act hfind h.ordered (Int.le_refl _) (fun id' _ _ => AgentTable.spares_refl _ _ id')
      hbacked (fun id hid => absurd hid (hnone id)) rfl

end Outcomes

/-- Every event of an orderly run keeps the invariant. -/
theorem guarded_step {m : Roster} {e : Event} (h : Guarded m) (he : Orderly m e) :
    Guarded (m.step e).1 := by
  have hout := outcome_step m e
  rcases he with ⟨hadmissible, huntouched, ⟨hforward, hslow, hwaited, hwaitedSlow, hwaitedLe⟩,
    hcommits⟩
  unfold Commits at hcommits
  generalize m.step e = after at hout hforward hslow hcommits ⊢
  rcases after with ⟨m', notices⟩
  dsimp only at hout hforward hslow hcommits ⊢
  generalize registrations notices = ids at hout hcommits
  -- Both clocks are read before the session, and the wall clock has not been faster since.
  have hlag : (m.moment e.waited).wall ≤ m.wall.now ∧
      m.wall.now - (m.moment e.waited).wall ≤ (m.now : Int) - (m.moment e.waited).started := by
    simp only [moment]
    omega
  cases hout with
  | absent => exact h
  | join name role configured expiration =>
      rcases hadmissible with ⟨s, v, hv, rfl⟩
      have hbound := (Settings.pulseExpiration_of_validate hv).2
      refine h.join rfl rfl ?_
      simp only [maxReading]
      omega
  | wrote hfind hwrites hids =>
      refine h.pulse hfind hwrites ?_ hlag.1 hlag.2
      rcases hids with ⟨_, hown, _⟩ | ⟨_, hnew⟩
      · exact Or.inl hown
      · exact Or.inr hnew
  | @stopped _ _ member _ selfId _ _ hfind hremembers =>
      -- A record that was inserted would be there, and its id is a new one.
      have hself : selfId = none ∨ selfId = member.link.selfId := by
        cases hremembers with
        | kept => exact Or.inr rfl
        | taken =>
            exact absurd (hcommits _ (List.mem_singleton_self _)) h.ordered.nextId_not_mem
        | forgotten _ => exact Or.inl rfl
      exact h.rest hfind hself (Link.afterFailure_snapshot _ _) rfl rfl
  | renewed hfind hrenews =>
      exact h.act hfind (hrenews.ordered h.ordered) (Int.le_of_eq hrenews.lastId.symm)
        (fun id _ hself => hrenews.spares h.ordered hself)
        (hrenews.backed h.ordered (h.backed _ _ hfind) (h.admissible _ _ hfind) hlag.2)
        (fun id hid => Or.inl hid) rfl
  | refused hfind hlink =>
      rcases hlink with rfl | rfl
      · exact h.rest hfind (Or.inr rfl) (Or.inr rfl) rfl rfl
      · exact h.rest hfind (Or.inr rfl) (Link.afterFailure_snapshot _ _) rfl rfl
  | left hfind hself htable => exact h.leave hfind hself htable
  | kept _ hfind => exact h.rest hfind (Or.inr rfl) (Or.inl rfl) rfl rfl
  | crash name =>
      refine h.pass (fun name' member hfind => ?_) h.ordered (Int.le_refl _)
        (fun id _ => AgentTable.spares_refl _ _ id) h.readable hforward hslow
      rw [find?_crash] at hfind
      split at hfind
      · cases hfind
      · exact hfind
  | advance wallMs monoMs =>
      exact h.pass (fun _ _ hfind => hfind) h.ordered (Int.le_refl _)
        (fun id _ => AgentTable.spares_refl _ _ id) (wrap_le _) hforward hslow
  | setClock now =>
      refine h.pass (fun _ _ hfind => hfind) h.ordered (Int.le_refl _)
        (fun id _ => AgentTable.spares_refl _ _ id) ?_ hforward hslow
      have := h.readable
      dsimp only at hslow ⊢
      omega
  | put row =>
      refine h.pass (fun _ _ hfind => hfind) (h.ordered.insert row) ?_
        (fun id hid => AgentTable.spares_insert hid) h.readable hforward hslow
      rw [Table.lastId_insert, Table.nextId]
      omega
  | delete gone => exact absurd huntouched.symm Bool.false_ne_true

/-- Who may process events has a record that runs with the published shard and
    whose lease is not over. Two dynamic agents of a role that may process at the
    same time have shards without a common hash. -/
theorem processing_is_backed (role : String) (wall : WallClock) (hwall : wall.now ≤ maxReading)
    (events : List Event)
    (h : Along (fun m e => Orderly m e ∧ e.KeepsDynamic role ∧
      (m.step e).1.agents.rows.length < 4294967296) { wall } events) :
    (∀ name member, (({ wall } : Roster).run events).find? name = some member →
      member.link.snapshot.canProcess (({ wall } : Roster).run events).now = true →
      ∃ a : Agent, (({ wall } : Roster).run events).agents.Holds a ∧
        member.link.snapshot.agentId = some a.id ∧
        a.isExpired (({ wall } : Roster).run events).wall.now = false ∧ a.state = .running ∧
        a.assignment = member.link.snapshot.assignment) ∧
    (∀ name name' member member', name ≠ name' →
      (({ wall } : Roster).run events).find? name = some member →
      (({ wall } : Roster).run events).find? name' = some member' →
      member.link.role = role → member'.link.role = role →
      member.link.snapshot.canProcess (({ wall } : Roster).run events).now = true →
      member'.link.snapshot.canProcess (({ wall } : Roster).run events).now = true →
      ∃ s s', member.link.snapshot.assignment = some s ∧
        member'.link.snapshot.assignment = some s' ∧
        ∀ hash, ¬ (s.contains hash = true ∧ s'.contains hash = true)) := by
  have hguarded : Guarded (({ wall } : Roster).run events) :=
    h.invariant (guarded_init hwall) (fun m e hm he => guarded_step hm he.1)
  have hdivided : Divided role (({ wall } : Roster).run events) :=
    h.invariant (divided_init role wall) (fun m e hm he => divided_step hm he.2.1 he.2.2)
  generalize ({ wall } : Roster).run events = m at hguarded hdivided ⊢
  have hfirst : ∀ name member, m.find? name = some member →
      member.link.snapshot.canProcess m.now = true → ∃ a : Agent, m.agents.Holds a ∧
        member.link.snapshot.agentId = some a.id ∧ a.isExpired m.wall.now = false ∧
        a.role = member.link.role ∧ a.state = .running ∧
        a.assignment = member.link.snapshot.assignment :=
    fun name member hfind hcan =>
      (hguarded.backed name member hfind).record hguarded.readable hcan
  -- The first part is of leases alone; the second puts it together with the division of shards.
  refine ⟨fun name member hfind hcan => ?_,
    fun name name' member member' hne hfind hfind' hrole hrole' hcan hcan' => ?_⟩
  · rcases hfirst name member hfind hcan with ⟨a, hheld, hid, hlive, _, hrun, hassigned⟩
    exact ⟨a, hheld, hid, hlive, hrun, hassigned⟩
  · rcases hfirst name member hfind hcan with ⟨a, hheld, hid, _, harole, hrun, hassigned⟩
    rcases hfirst name' member' hfind' hcan' with ⟨b, hheld', hid', _, hbrole, hrun', hassigned'⟩
    have ha : m.agents.Runs role a := ⟨hheld, harole.trans hrole, hrun⟩
    have hb : m.agents.Runs role b := ⟨hheld', hbrole.trans hrole', hrun'⟩
    have hids : a.id ≠ b.id := by
      intro heq
      rw [← heq] at hid'
      exact hne (hguarded.distinct name name' member member' a.id hfind hfind' hid hid')
    rcases hdivided.exclusive.assigned a ha with ⟨s, hs⟩
    rcases hdivided.exclusive.assigned b hb with ⟨s', hs'⟩
    rcases hdivided.exclusive.apart a b ha hb hids with ⟨htotal, hshard⟩
    refine ⟨s, s', hassigned.symm.trans hs, hassigned'.symm.trans hs', ?_⟩
    rw [(Agent.assignment_eq_some_iff.mp hs).1, (Agent.assignment_eq_some_iff.mp hs').1,
      Option.some.injEq] at htotal
    rw [hs, hs'] at hshard
    exact Assignment.not_contains_both htotal (fun heq => hshard (congrArg some heq))

/-- Two agents share the shards, and one of them still does when its session has
    failed. -/
def leasing : List Event :=
  [.join "a" "r" none 30000, .pulse "a", .advance 10 20, .pulse "a" ⟨15, 5⟩,
    .join "b" "r" none 30000, .pulse "b", .pulse "a", .advance 900 1000, .pulse "b" ⟨500, 400⟩,
    .pulse "a", .arm "a" .commit 1 .database, .pulse "a", .renew "b" ⟨7, 0⟩]

theorem processing_is_backed_leasing :
    ((({ wall := ⟨0⟩ } : Roster).run leasing).find? "a").any
      (·.link.snapshot.canProcess (({ wall := ⟨0⟩ } : Roster).run leasing).now) = true ∧
    ((({ wall := ⟨0⟩ } : Roster).run leasing).find? "b").any
      (·.link.snapshot.canProcess (({ wall := ⟨0⟩ } : Roster).run leasing).now) = true ∧
    (∀ name member, (({ wall := ⟨0⟩ } : Roster).run leasing).find? name = some member →
      member.link.snapshot.canProcess (({ wall := ⟨0⟩ } : Roster).run leasing).now = true →
      ∃ a : Agent, (({ wall := ⟨0⟩ } : Roster).run leasing).agents.Holds a ∧
        member.link.snapshot.agentId = some a.id ∧
        a.isExpired (({ wall := ⟨0⟩ } : Roster).run leasing).wall.now = false ∧
        a.state = .running ∧ a.assignment = member.link.snapshot.assignment) := by
  have hadmissible : ∀ e ∈ leasing, e.Admissible := by
    have hdefault : ∃ (s : Settings) (v : Validated), s.validate = .ok v ∧
        v.pulseExpiration = 30000 := ⟨{}, _, rfl, rfl⟩
    simp only [leasing, List.mem_cons, List.not_mem_nil, or_false]
    rintro e (rfl | rfl | rfl | rfl | rfl | rfl | rfl | rfl | rfl | rfl | rfl | rfl | rfl) <;>
      first | exact hdefault | exact trivial
  have hrest : Along (fun m e => (e.isRemoval = false ∧ Paced m e ∧ Commits m e) ∧
      e.KeepsDynamic "r" ∧ (m.step e).1.agents.rows.length < 4294967296)
      { wall := ⟨0⟩ } leasing := by
    decide +kernel
  refine ⟨by decide +kernel, by decide +kernel,
    (processing_is_backed "r" ⟨0⟩ (by decide) leasing ?_).1⟩
  refine ((along_of_forall hadmissible).and hrest).imp (fun m e he => ?_)
  rcases he with ⟨hadm, ⟨hremoval, hpaced, hcommits⟩, hkeeps, hlen⟩
  exact ⟨⟨hadm, hremoval, hpaced, hcommits⟩, hkeeps, hlen⟩

end Roster

end OutboxCluster
