import OutboxCluster.Proofs.Attempt

/-!
# What an Attempt Writes

`Link.Writes` tells a pulse in the order in which its session goes: who was in
the table, whose lease was over, whether the agent registered, what it decided.
The laws about runs do not care for that order. They ask what rows there are
afterwards, and what the decision has looked at.

The answer to both is that the decision has looked at the table as it is
afterwards. Between the reading of the table and the writing of the own record
there are only changes that the session makes itself, and it takes each of them
into account. `Enrols.decides` is that argument: the live records, with the one of
an agent that registers, are what the table would list if it were read again.

## Main definitions

* `Link.Decides`: A table in which an agent decides.
* `AgentTable.Spares`: A change leaves a live record alone.

## Theorems

* `mem_reclaimed`: The rows after the records with an ended lease are removed.
* `Enrols.decides`: The live records are what the table lists.
* `Writes.mem_rows`: The rows after a pulse that came through.
* `Writes.running`: What an agent has made sure of when it runs.
* `Renews.mem_rows`: The rows after a renewal that came through.
* `Writes.spares`, `Renews.spares`: Both leave live records of others alone.
-/

namespace OutboxCluster

namespace Agent

/-- An assignment is in the two numbers of its record. -/
theorem assignment_eq_some_iff {a : Agent} {s : Assignment} :
    a.assignment = some s ↔ a.total = some s.total ∧ a.index = some s.index := by
  unfold assignment
  constructor
  · intro h
    cases ht : a.total with
    | none =>
        rw [ht] at h
        cases h
    | some total =>
        cases hi : a.index with
        | none =>
            rw [ht, hi] at h
            cases h
        | some index =>
            rw [ht, hi] at h
            rcases Assignment.ofNumbers?_eq_some.mp h with ⟨rfl, rfl⟩
            exact ⟨rfl, rfl⟩
  · rintro ⟨ht, hi⟩
    rw [ht, hi]
    exact s.ofNumbers?_self

@[simp] theorem assignment_withAssignment (a : Agent) (s : Option Assignment) :
    (a.withAssignment s).assignment = s := by
  cases s with
  | none => rfl
  | some s => exact assignment_eq_some_iff.mpr ⟨rfl, rfl⟩

end Agent

/-- A member of a list that is not too long has a shard. -/
theorem exists_dynamicAssignment {ids : List Int} {self : Int} (hmem : self ∈ ids)
    (hlen : ids.length < 4294967296) : ∃ s, dynamicAssignment ids self = some s := by
  unfold dynamicAssignment
  cases hfind : ids.findIdx? (· == self) with
  | none =>
      have := List.findIdx?_eq_none_iff.mp hfind self hmem
      rw [beq_self_eq_true] at this
      exact absurd this.symm Bool.false_ne_true
  | some position =>
      have hpos : position < ids.length := (List.findIdx?_eq_some_iff_getElem.mp hfind).1
      -- Both numbers fit into a word, so comparing the words compares the numbers.
      have hlt : UInt32.ofNat position < UInt32.ofNat ids.length := by
        rw [UInt32.lt_iff_toNat_lt, UInt32.toNat_ofNat_of_lt' (by simp only [UInt32.size]; omega),
          UInt32.toNat_ofNat_of_lt' (by simp only [UInt32.size]; omega)]
        exact hpos
      dsimp only
      rw [if_pos hlen, Assignment.ofNumbers?, dif_pos hlt]
      exact ⟨_, rfl⟩

/-- A dynamic agent records the shard of its position, whoever is in the way. -/
theorem decideDynamic_assignment (me : Agent) (ids : List Int) (peers : List Agent) :
    (decideDynamic me ids peers).assignment = dynamicAssignment ids me.id := by
  unfold decideDynamic
  by_cases htarget : me.assignment ≠ dynamicAssignment ids me.id
  · rw [if_pos htarget]
    exact Agent.assignment_withAssignment me _
  · rw [if_neg htarget]
    have hsame : me.assignment = dynamicAssignment ids me.id := Decidable.not_not.mp htarget
    split <;> exact hsame

/-- A dynamic agent that runs has the target, and every peer leaves it. -/
theorem decideDynamic_running {me : Agent} {ids : List Int} {peers : List Agent} {s : Assignment}
    (hs : dynamicAssignment ids me.id = some s)
    (hrun : (decideDynamic me ids peers).state = .running) :
    (decideDynamic me ids peers).assignment = some s ∧
      ∀ peer ∈ peers, peer.leaves (some s) = true := by
  unfold decideDynamic at hrun ⊢
  rw [hs] at hrun ⊢
  by_cases htarget : me.assignment ≠ some s
  · -- An agent that changes its shard starts over and does not run.
    rw [if_pos htarget] at hrun
    cases hrun
  · rw [if_neg htarget] at hrun ⊢
    by_cases hpeers : (peers.all (·.leaves (some s))) = true
    · rw [if_pos hpeers]
      exact ⟨Decidable.not_not.mp htarget, List.all_eq_true.mp hpeers⟩
    · rw [if_neg hpeers] at hrun
      cases hrun

namespace AgentTable

/-- A live record with this id is as before, and nobody has come in its place. -/
def Spares (t t' : AgentTable) (wall : Int) (id : Int) : Prop :=
  ∀ row, ((id, row) ∈ t'.rows → (id, row) ∈ t.rows) ∧
    ((id, row) ∈ t.rows → wall ≤ row.expiration → (id, row) ∈ t'.rows)

section Spares

variable {t : AgentTable} {wall : Int}

theorem spares_refl (t : AgentTable) (wall : Int) (id : Int) : t.Spares t wall id :=
  fun _ => ⟨fun h => h, fun h _ => h⟩

theorem spares_delete {id id' : Int} (hne : id' ≠ id) : t.Spares (t.delete [id]) wall id' :=
  fun _ => ⟨fun h => (Table.mem_delete.mp h).1, fun h _ => Table.mem_delete.mpr
    ⟨h, by rw [List.mem_singleton]; exact hne⟩⟩

theorem spares_insert {row : AgentRow} {id : Int} (hid : id ≤ t.lastId) :
    t.Spares (t.insert row) wall id := by
  refine fun row' => ⟨fun h => ?_, fun h _ => Table.mem_insert.mpr (Or.inl h)⟩
  rcases Table.mem_insert.mp h with hbefore | hnew
  · exact hbefore
  · have hnext := congrArg Prod.fst hnew
    simp only [Table.nextId] at hnext
    omega

end Spares

end AgentTable

section Reclaim

variable {t : AgentTable} {role : String} {agents : List Agent}

/-- The rows that stay when the records with an ended lease are removed. -/
theorem mem_reclaimed (hord : t.Ordered) (hlist : t.list role = .ok agents) {now : Int}
    {p : Int × AgentRow} :
    p ∈ (t.delete ((agents.filter (·.isExpired now)).map (·.id))).rows ↔
      p ∈ t.rows ∧ ¬ (p.2.role = role ∧ p.2.expiration < now) := by
  rw [Table.mem_delete]
  refine and_congr_right (fun hp => not_congr ?_)
  simp only [List.mem_map, List.mem_filter]
  constructor
  · rintro ⟨a, ⟨ha, hexpired⟩, hid⟩
    -- An id names one row, so the row is that of the listed agent.
    have hheld := (AgentTable.mem_list_iff hlist).mp ha
    rw [hord.eq_of_id_eq hp hheld.1 hid.symm]
    exact ⟨hheld.2, of_decide_eq_true hexpired⟩
  · rintro ⟨hrole, hexpired⟩
    rcases AgentTable.exists_of_list hlist hp hrole with ⟨a, ha, rfl⟩
    exact ⟨a, ⟨ha, decide_eq_true hexpired⟩, rfl⟩

/-- Reading the table again gives the live agents. -/
theorem list_reclaimed (hord : t.Ordered) (hlist : t.list role = .ok agents) (now : Int) :
    AgentTable.list (t.delete ((agents.filter (·.isExpired now)).map (·.id))) role =
      .ok (agents.filter (! ·.isExpired now)) := by
  have hrows := AgentTable.list_eq_ok_iff.mp hlist
  rw [AgentTable.list_eq_ok_iff, Table.delete, List.filter_filter]
  -- The role is asked first, so that what was listed comes in.
  simp only [Bool.and_comm _ (! _)]
  rw [← List.filter_filter, hrows, List.filter_map]
  refine congrArg _ (List.filter_congr (fun a ha => ?_))
  refine congrArg (! ·) (Bool.eq_iff_iff.mpr ?_)
  rw [List.contains_iff_mem, List.mem_map]
  constructor
  · rintro ⟨b, hb, hid⟩
    rw [List.mem_filter] at hb
    rw [← AgentTable.Holds.eq_of_id_eq hord ((AgentTable.mem_list_iff hlist).mp hb.1).1
      ((AgentTable.mem_list_iff hlist).mp ha).1 hid]
    exact hb.2
  · intro hexpired
    exact ⟨a, List.mem_filter.mpr ⟨ha, hexpired⟩, rfl⟩

end Reclaim

namespace Link

/-- The table in which an agent with record `own` decides lists the live records,
    and the own one is among them. -/
structure Decides (l : Link) (own : Agent) (live : List Agent) (t₁ : AgentTable) : Prop where
  ordered : t₁.Ordered
  list_eq : t₁.list l.role = .ok live
  own_mem : own ∈ live

namespace Decides

variable {l : Link} {own : Agent} {live : List Agent} {t₁ : AgentTable}

theorem own_role (h : l.Decides own live t₁) : own.role = l.role :=
  ((AgentTable.mem_list_iff h.list_eq).mp h.own_mem).2

end Decides

theorem Enrols.decides {l : Link} {now : Int} {agents own : _} {live : List Agent}
    {t t₁ : AgentTable} (hord : t.Ordered) (hlist : t.list l.role = .ok agents)
    (h : l.Enrols now agents t own live t₁) : l.Decides own live t₁ := by
  cases h with
  | own hmem _ => exact ⟨hord, hlist, hmem⟩
  | new _ =>
      refine ⟨hord.insert _, ?_, List.mem_append_right _ (List.mem_singleton_self _)⟩
      have hown : [(t.nextId, (l.created now t).row)].filter (·.2.role == l.role) =
          [l.created now t].map fun a => (a.id, a.row) :=
        List.filter_cons_of_pos (beq_self_eq_true l.role)
      -- The new row stands last, in the table as in the list.
      rw [AgentTable.list_eq_ok_iff, Table.insert, List.filter_append, List.map_append,
        AgentTable.list_eq_ok_iff.mp hlist, hown]

/-- Registering adds a record at most, and that is the own one. -/
theorem Enrols.mem_rows {l : Link} {now : Int} {own : Agent} {agents live : List Agent}
    {t t₁ : AgentTable} (h : l.Enrols now agents t own live t₁) {p : Int × AgentRow}
    (hp : p.1 ≠ own.id) : p ∈ t₁.rows ↔ p ∈ t.rows := by
  cases h with
  | own _ _ => exact Iff.rfl
  | new _ =>
      rw [Table.mem_insert, or_iff_left]
      rintro rfl
      exact hp rfl

section Writes

variable {l : Link} {now : Int} {t t' : AgentTable} {me : Agent}

/-- What was decided on, and how it was written. -/
theorem Writes.decides (hord : t.Ordered) (h : l.Writes now t me t') :
    ∃ own live t₁, l.Decides own live t₁ ∧ me = l.leased now (l.decision own live) live ∧
      own.id = me.id ∧ own.role = me.role ∧ t₁.holds me = true ∧ t' = t₁.overwrite me ∧
      ∀ p : Int × AgentRow, p.1 ≠ me.id →
        (p ∈ t₁.rows ↔ p ∈ t.rows ∧ ¬ (p.2.role = l.role ∧ p.2.expiration < now)) := by
  rcases h with ⟨agents, own, live, t₁, hlist, henrols, hme, hheld, ht'⟩
  have hid : own.id = me.id := by
    rw [hme, (leased_fields _ _ _ _).1, (decision_fields _ _ _).1]
  have hrole : own.role = me.role := by
    rw [hme, (leased_fields _ _ _ _).2, (decision_fields _ _ _).2]
  refine ⟨own, live, t₁, henrols.decides (hord.delete _) (list_reclaimed hord hlist now), hme,
    hid, hrole, hheld, ht', fun p hp => ?_⟩
  rw [henrols.mem_rows (by rw [hid]; exact hp), mem_reclaimed hord hlist]

theorem Writes.ordered (hord : t.Ordered) (h : l.Writes now t me t') : t'.Ordered := by
  rcases h.decides hord with ⟨_, _, _, hdec, _, _, _, _, rfl, _⟩
  exact AgentTable.ordered_overwrite hdec.ordered me

theorem Writes.role_eq (hord : t.Ordered) (h : l.Writes now t me t') : me.role = l.role := by
  rcases h.decides hord with ⟨_, _, _, hdec, _, _, hrole, _⟩
  rw [← hrole]
  exact hdec.own_role

/-- The rows after a pulse that came through: the own one, and those of before
    except the ones of the role whose lease was over. -/
theorem Writes.mem_rows (hord : t.Ordered) (h : l.Writes now t me t') {p : Int × AgentRow} :
    p ∈ t'.rows ↔ p = (me.id, me.row) ∨
      (p.1 ≠ me.id ∧ p ∈ t.rows ∧ ¬ (p.2.role = l.role ∧ p.2.expiration < now)) := by
  rcases h.decides hord with ⟨own, live, t₁, hdec, hme, hid, hrole, hheld, rfl, hrows⟩
  rw [AgentTable.mem_overwrite hdec.ordered hheld]
  refine or_congr_right ?_
  rw [and_comm]
  exact and_congr_right (hrows p)

/-- Ids are never given back by a session that commits. -/
theorem Writes.lastId_le (h : l.Writes now t me t') : t.lastId ≤ t'.lastId := by
  rcases h with ⟨agents, own, live, t₁, _, henrols, _, _, rfl⟩
  rw [AgentTable.lastId_overwrite]
  cases henrols with
  | own _ _ => exact Int.le_refl _
  | new _ =>
      rw [Table.lastId_insert, Table.nextId_delete, Table.nextId]
      omega

theorem Writes.holds (hord : t.Ordered) (h : l.Writes now t me t') : t'.Holds me :=
  (h.mem_rows hord).mpr (Or.inl rfl)

/-- An agent whose record is live goes on with it. -/
theorem Writes.keeps_id (h : l.Writes now t me t') {id : Int} {row : AgentRow}
    (hself : l.selfId = some id) (hrow : (id, row) ∈ t.rows) (hrole : row.role = l.role)
    (hlive : ¬ row.expiration < now) : me.id = id := by
  rcases h with ⟨agents, own, live, t₁, hlist, henrols, hme, _, _⟩
  have hid : me.id = own.id := by
    rw [hme, (leased_fields _ _ _ _).1, (decision_fields _ _ _).1]
  rw [hid]
  cases henrols with
  | own _ hown => exact Option.some.inj (hown.symm.trans hself)
  | new hmissing =>
      rcases AgentTable.exists_of_list hlist hrow hrole with ⟨a, ha, heq⟩
      rw [Prod.mk.injEq] at heq
      rcases heq with ⟨rfl, rfl⟩
      have halive : a ∈ agents.filter (! ·.isExpired now) := by
        have hlive' : a.isExpired now = false := decide_eq_false hlive
        exact List.mem_filter.mpr ⟨ha, by rw [hlive']; rfl⟩
      exact absurd hself (hmissing a halive)

/-- A pulse spares the others: it removes what is expired by a clock that is not
    ahead. -/
theorem Writes.spares (hord : t.Ordered) (h : l.Writes now t me t') {wall : Int}
    (hwall : now ≤ wall) {id : Int} (hid : id ≠ me.id) : t.Spares t' wall id := by
  refine fun row => ⟨fun hrow => ?_, fun hrow hlive => ?_⟩
  · rcases (h.mem_rows hord).mp hrow with heq | ⟨_, hbefore, _⟩
    · exact absurd (congrArg Prod.fst heq) hid
    · exact hbefore
  · -- A row that a pulse removes is over by its reading, and so by any later one.
    refine (h.mem_rows hord).mpr (Or.inr ⟨hid, hrow, fun hgone => ?_⟩)
    have hgone' : row.expiration < now := hgone.2
    omega

/-- A dynamic agent that runs has a shard that every other agent of its role
    leaves to it, whether the lease of that agent is over or not. -/
theorem Writes.running (hord : t.Ordered) (h : l.Writes now t me t')
    (hconf : l.configured = none) (hlen : t'.rows.length < 4294967296)
    (hrun : me.state = .running) :
    ∃ s, me.assignment = some s ∧
      ∀ peer, t'.Holds peer → peer.role = l.role → peer.id ≠ me.id →
        peer.leaves (some s) = true := by
  have hmem := fun p => h.mem_rows (p := p) hord
  rcases h.decides hord with ⟨own, live, t₁, hdec, hme, hid, _, _, ht', hrows⟩
  have hlive : (live.map (·.id)).length < 4294967296 := by
    have hle := AgentTable.length_list_le hdec.list_eq
    rw [ht', AgentTable.overwrite, Table.modify, List.length_map] at hlen
    rw [List.length_map]
    omega
  -- With that few members the agent has a target, so `none` is no shard to agree on.
  rcases exists_dynamicAssignment (List.mem_map_of_mem hdec.own_mem) hlive with ⟨s, hs⟩
  have hdecision : l.decision own live =
      decideDynamic own (live.map (·.id)) (live.filter (·.id ≠ own.id)) := by
    rw [decision, hconf]
  rw [hme, hdecision] at hrun
  rcases decideDynamic_running hs hrun with ⟨hassigned, hleaves⟩
  refine ⟨s, by rw [hme, hdecision]; exact hassigned, fun peer hpeer hrole hne => ?_⟩
  -- What the table holds of others now, the decision has seen.
  have hseen : t₁.Holds peer := by
    rcases (hmem _).mp hpeer with heq | ⟨_, hbefore⟩
    · exact absurd (congrArg Prod.fst heq) hne
    · exact (hrows _ hne).mpr hbefore
  refine hleaves peer (List.mem_filter.mpr ⟨?_, decide_eq_true (by rw [hid]; exact hne)⟩)
  exact (AgentTable.mem_list_iff hdec.list_eq).mpr ⟨hseen, hrole⟩

end Writes

section Renews

variable {l : Link} {reading : Int} {t t' : AgentTable}

theorem Renews.lastId (h : l.Renews reading t t') : t'.lastId = t.lastId := by
  rcases h with ⟨me, _, _, _, _, rfl⟩
  rfl

theorem Renews.ordered (hord : t.Ordered) (h : l.Renews reading t t') : t'.Ordered := by
  rcases h with ⟨me, _, _, _, _, rfl⟩
  exact AgentTable.ordered_overwrite hord _

/-- The rows after a renewal that came through: the own one with a new lease, and
    the others. -/
theorem Renews.mem_rows (hord : t.Ordered) (h : l.Renews reading t t') :
    ∃ me, l.selfId = some me.id ∧ t.Holds me ∧ ∀ p : Int × AgentRow, p ∈ t'.rows ↔
      p = (me.id, Agent.row { me with expiration := l.leaseEnd reading }) ∨
        (p ∈ t.rows ∧ p.1 ≠ me.id) := by
  rcases h with ⟨me, hself, hheld, _, _, rfl⟩
  have hholds : t.holds { me with expiration := l.leaseEnd reading } = true :=
    AgentTable.holds_iff.mpr ⟨me.row, hheld, rfl⟩
  exact ⟨me, hself, hheld, fun p => AgentTable.mem_overwrite hord hholds⟩

theorem Renews.spares (hord : t.Ordered) (h : l.Renews reading t t') {wall id : Int}
    (hid : l.selfId ≠ some id) : t.Spares t' wall id := by
  rcases h.mem_rows hord with ⟨me, hself, _, hrows⟩
  have hne : id ≠ me.id := by
    rintro rfl
    exact hid hself
  refine fun row => ⟨fun hrow => ?_, fun hrow _ => (hrows _).mpr (Or.inr ⟨hrow, hne⟩)⟩
  rcases (hrows _).mp hrow with heq | ⟨hbefore, _⟩
  · exact absurd (congrArg Prod.fst heq) hne
  · exact hbefore

end Renews

end Link

end OutboxCluster
