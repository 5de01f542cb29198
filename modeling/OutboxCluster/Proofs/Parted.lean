import OutboxCluster.Proofs.Exclusive

/-!
# Agents that Run Have Parted the Hash Space

What it means for the records of a role that no two running agents share a shard,
without a word about how they have come to agree. Dynamic agents agree by counting
themselves and configured ones by giving way to each other, and both end up here.

A record is `Proper` if it can be read and names either a shard or no total at all.
Every record that a link writes is, and the law needs it: a running peer with a
total and no shard would be taken for one that has another shard.

With more members than a word can count, a dynamic agent has no shard to take. It
may run all the same, and then it is the only one that does (`Writes.apart`). So
the law of pairs needs no bound on the number of records.

## Main definitions

* `Agent.Apart`: Two agents have different shards of one total.
* `AgentTable.Proper`: The records of a role can be read and make sense.
* `AgentTable.Parted`: Those that run are apart.

## Theorems

* `Parted.carry`: A table with no new claims.
* `Parted.write`: A pulse of an agent that is apart from the others if it runs.
* `Parted.writeDynamic`: A pulse of a dynamic agent.
* `Parted.rows_apart`: The same, said of the numbers in the rows.
-/

namespace OutboxCluster

namespace Agent

/-- Both agents have a shard, and these are different ones of one total. -/
def Apart (a b : Agent) : Prop :=
  ∃ s s', a.assignment = some s ∧ b.assignment = some s' ∧ s.total = s'.total ∧ s.index ≠ s'.index

theorem Apart.symm {a b : Agent} (h : a.Apart b) : b.Apart a := by
  rcases h with ⟨s, s', hs, hs', htotal, hindex⟩
  exact ⟨s', s, hs', hs, htotal.symm, Ne.symm hindex⟩

/-- Shards of one total that are not the same have different indices. -/
theorem apart_of_ne {a b : Agent} {s s' : Assignment} (hs : a.assignment = some s)
    (hs' : b.assignment = some s') (htotal : s.total = s'.total) (hne : s ≠ s') : a.Apart b := by
  refine ⟨s, s', hs, hs', htotal, fun hindex => hne ?_⟩
  rcases s with ⟨total, index, _⟩
  rcases s' with ⟨total', index', _⟩
  dsimp only at htotal hindex
  subst htotal hindex
  rfl

/-- The agent names a shard, or no total. -/
def Sensible (a : Agent) : Prop := a.total = none ∨ ∃ s, a.assignment = some s

theorem sensible_withAssignment (a : Agent) (s : Option Assignment) :
    (a.withAssignment s).Sensible := by
  cases s with
  | none => exact Or.inl rfl
  | some s => exact Or.inr ⟨s, assignment_withAssignment a (some s)⟩

/-- The agent is apart from a running peer that leaves the shard to it. -/
theorem apart_of_leaves {me peer : Agent} (hrun : peer.state = .running) (hpeer : peer.Sensible)
    (hleaves : peer.leaves me.assignment = true) : me.Apart peer := by
  unfold leaves at hleaves
  rw [hrun] at hleaves
  dsimp only at hleaves
  rw [Bool.and_eq_true, beq_iff_eq, bne_iff_ne] at hleaves
  rcases hleaves with ⟨htotal, hne⟩
  rcases hpeer with hnone | ⟨s', hs'⟩
  · -- Neither of them has a total, so they claim the same: nothing.
    have hme : me.assignment = none := Option.map_eq_none_iff.mp (htotal.symm.trans hnone)
    have hpeer : peer.assignment = none := by
      unfold assignment
      rw [hnone]
    exact absurd (hpeer.trans hme.symm) hne
  · have htotal' := (assignment_eq_some_iff.mp hs').1
    rw [htotal] at htotal'
    rcases Option.map_eq_some_iff.mp htotal' with ⟨s, hs, heq⟩
    refine apart_of_ne hs hs' heq (fun hsame => hne ?_)
    rw [hs, hs', hsame]

end Agent

namespace AgentTable

/-- Every record of the role can be read and names a shard, or no total. -/
def Proper (t : AgentTable) (role : String) : Prop :=
  ∀ p ∈ t.rows, p.2.role = role → ∃ a : Agent, p = (a.id, a.row) ∧ a.Sensible

/-- Any two agents of the role that run are apart. -/
structure Parted (t : AgentTable) (role : String) : Prop where
  proper : t.Proper role
  apart : ∀ a b, t.Runs role a → t.Runs role b → a.id ≠ b.id → a.Apart b

theorem Proper.sensible {t : AgentTable} {role : String} (h : t.Proper role) {a : Agent}
    (ha : t.Holds a) (hrole : a.role = role) : a.Sensible := by
  rcases h _ ha hrole with ⟨b, heq, hb⟩
  rw [Prod.mk.injEq] at heq
  rw [Agent.row_injective heq.1 heq.2]
  exact hb

/-- A table whose records of the role can all be read lists them. -/
theorem Proper.exists_list {t : AgentTable} {role : String} (h : t.Proper role) :
    ∃ agents, t.list role = .ok agents := by
  have hread : ∀ rows : List (Int × AgentRow),
      (∀ p ∈ rows, p.2.role = role → ∃ a : Agent, p = (a.id, a.row)) →
      ∃ agents : List Agent,
        rows.filter (·.2.role == role) = agents.map fun a => (a.id, a.row) := by
    intro rows hrows
    induction rows with
    | nil => exact ⟨[], rfl⟩
    | cons p rows ih =>
        rcases ih (fun q hq => hrows q (List.mem_cons_of_mem _ hq)) with ⟨agents, hagents⟩
        by_cases hrole : p.2.role = role
        · rcases hrows p List.mem_cons_self hrole with ⟨a, ha⟩
          refine ⟨a :: agents, ?_⟩
          rw [List.filter_cons_of_pos (p := fun q : Int × AgentRow => q.2.role == role)
            (beq_iff_eq.mpr hrole), hagents, List.map_cons, ha]
        · refine ⟨agents, ?_⟩
          rw [List.filter_cons_of_neg (p := fun q : Int × AgentRow => q.2.role == role)
            (fun heq => hrole (beq_iff_eq.mp heq)), hagents]
  rcases hread t.rows (fun p hp hrole => (h p hp hrole).imp (fun _ ha => ha.1)) with ⟨agents, heq⟩
  exact ⟨agents, list_eq_ok_iff.mpr heq⟩

theorem parted_empty (role : String) : Parted {} role where
  proper := fun _ hp => absurd hp List.not_mem_nil
  apart := fun _ _ ha => absurd ha.1 List.not_mem_nil

namespace Parted

variable {t t' : AgentTable} {role : String}

/-- Every record of the role was there before, up to the end of its lease. -/
theorem carry (h : t.Parted role)
    (hback : ∀ a, t'.Holds a → a.role = role → ∃ expiration, t.Holds { a with expiration })
    (hproper : t'.Proper role) : t'.Parted role := by
  refine ⟨hproper, fun a b ha hb hne => ?_⟩
  rcases hback a ha.1 ha.2.1 with ⟨expiration, ha'⟩
  rcases hback b hb.1 hb.2.1 with ⟨expiration', hb'⟩
  exact h.apart { a with expiration } { b with expiration := expiration' } ⟨ha', ha.2⟩ ⟨hb', hb.2⟩
    hne

end Parted

theorem Proper.of_subset {t t' : AgentTable} {role : String} (h : t.Proper role)
    (hsub : ∀ p ∈ t'.rows, p.2.role = role → p ∈ t.rows) : t'.Proper role :=
  fun p hp hrole => h p (hsub p hp hrole) hrole

/-- Rows that were there before bring no new claim. -/
theorem Parted.of_subset {t t' : AgentTable} {role : String} (h : t.Parted role)
    (hsub : ∀ p ∈ t'.rows, p.2.role = role → p ∈ t.rows) : t'.Parted role :=
  h.carry (fun a ha hrole => ⟨a.expiration, hsub _ ha hrole⟩) (h.proper.of_subset hsub)

section Changes

variable {t t' : AgentTable} {role : String} {l : Link} {now : Int} {me : Agent}

/-- After a renewal every record was there before, up to the end of its lease. -/
theorem holds_of_renews (hord : t.Ordered) (h : l.Renews now t t') {a : Agent}
    (ha : t'.Holds a) : ∃ expiration, t.Holds { a with expiration } := by
  rcases h.mem_rows hord with ⟨me, _, hheld, hrows⟩
  rcases (hrows _).mp ha with heq | ⟨hbefore, _⟩
  · rw [Prod.mk.injEq] at heq
    have ha' : a = { me with expiration := l.leaseEnd now } := Agent.row_injective heq.1 heq.2
    exact ⟨me.expiration, by rw [ha']; exact hheld⟩
  · exact ⟨a.expiration, hbefore⟩

theorem Proper.renew (hord : t.Ordered) (hproper : t.Proper role) (h : l.Renews now t t') :
    t'.Proper role := by
  rcases h.mem_rows hord with ⟨me, _, hheld, hrows⟩
  intro p hp hrole
  rcases (hrows p).mp hp with rfl | ⟨hbefore, _⟩
  · have hsensible : me.Sensible := hproper.sensible hheld hrole
    exact ⟨{ me with expiration := l.leaseEnd now }, rfl, hsensible⟩
  · exact hproper p hbefore hrole

/-- A renewal moves the end of a lease. -/
theorem Parted.renew (hord : t.Ordered) (hparted : t.Parted role) (h : l.Renews now t t') :
    t'.Parted role :=
  hparted.carry (fun _ ha _ => holds_of_renews hord h ha) (hparted.proper.renew hord h)

/-- After a pulse every agent is the one that has pulsed, or it was there before. -/
theorem cases_of_writes (hord : t.Ordered) (h : l.Writes now t me t') {a : Agent}
    (ha : t'.Holds a) : a = me ∨ (a.id ≠ me.id ∧ t.Holds a) := by
  rcases (h.mem_rows hord).mp ha with heq | ⟨hne, hbefore, _⟩
  · rw [Prod.mk.injEq] at heq
    exact Or.inl (Agent.row_injective heq.1 heq.2)
  · exact Or.inr ⟨hne, hbefore⟩

theorem Proper.write (hord : t.Ordered) (hproper : t.Proper role) (h : l.Writes now t me t')
    (hme : me.role = role → me.Sensible) : t'.Proper role := by
  intro p hp hrole
  rcases (h.mem_rows hord).mp hp with rfl | ⟨_, hbefore, _⟩
  · exact ⟨me, rfl, hme hrole⟩
  · exact hproper p hbefore hrole

/-- A pulse writes one record, whose agent is apart from all others if it runs. -/
theorem Parted.write (hord : t.Ordered) (hparted : t.Parted role) (h : l.Writes now t me t')
    (hproper : t'.Proper role)
    (hme : t'.Runs role me → ∀ b, t'.Runs role b → b.id ≠ me.id → me.Apart b) :
    t'.Parted role := by
  refine ⟨hproper, fun a b ha hb hne => ?_⟩
  rcases cases_of_writes hord h ha.1 with rfl | ⟨hane, ha'⟩
  · exact hme ha b hb (Ne.symm hne)
  · rcases cases_of_writes hord h hb.1 with rfl | ⟨_, hb'⟩
    · exact (hme hb a ha hane).symm
    · exact hparted.apart a b ⟨ha', ha.2⟩ ⟨hb', hb.2⟩ hne

end Changes

end AgentTable

section Dynamic

/-- A dynamic agent that runs has a shard that every peer leaves to it, if it has
    one at all. -/
theorem decideDynamic_leaves {me : Agent} {ids : List Int} {peers : List Agent}
    (hrun : (decideDynamic me ids peers).state = .running) :
    ∀ peer ∈ peers, peer.leaves (decideDynamic me ids peers).assignment = true := by
  unfold decideDynamic at hrun ⊢
  by_cases htarget : me.assignment ≠ dynamicAssignment ids me.id
  · rw [if_pos htarget] at hrun
    cases hrun
  · rw [if_neg htarget] at hrun ⊢
    by_cases hpeers : (peers.all (·.leaves (dynamicAssignment ids me.id))) = true
    · rw [if_pos hpeers]
      have hsame : Agent.assignment { me with state := .running } = dynamicAssignment ids me.id :=
        Decidable.not_not.mp htarget
      rw [hsame]
      exact List.all_eq_true.mp hpeers
    · rw [if_neg hpeers] at hrun
      cases hrun

theorem sensible_decideDynamic {me : Agent} (h : me.Sensible) (ids : List Int)
    (peers : List Agent) : (decideDynamic me ids peers).Sensible := by
  unfold decideDynamic
  by_cases htarget : me.assignment ≠ dynamicAssignment ids me.id
  · rw [if_pos htarget]
    exact Agent.sensible_withAssignment me _
  · rw [if_neg htarget]
    split <;> exact h

namespace Link

variable {l : Link} {now : Int} {t t' : AgentTable} {me : Agent}

/-- The own record makes sense: it is one of the table, or a new one. -/
theorem Enrols.sensible {agents live : List Agent} {own : Agent} {t₁ : AgentTable}
    (hagents : ∀ a ∈ agents, a.Sensible) (h : l.Enrols now agents t own live t₁) :
    own.Sensible := by
  cases h with
  | own hmem _ => exact hagents _ hmem
  | new _ => exact Agent.sensible_withAssignment (l.created now t) l.configured

/-- What a pulse writes makes sense. -/
theorem Writes.sensible (h : l.Writes now t me t') (hproper : t.Proper l.role) : me.Sensible := by
  rcases h with ⟨agents, own, live, t₁, hlist, henrols, hme, _, _⟩
  have hown : own.Sensible := by
    refine henrols.sensible (fun a ha => ?_)
    have hheld := (AgentTable.mem_list_iff hlist).mp (List.mem_filter.mp ha).1
    exact hproper.sensible hheld.1 hheld.2
  have hdecision : (l.decision own live).Sensible := by
    unfold decision
    cases l.configured with
    | none => exact sensible_decideDynamic hown _ _
    | some configured => exact Agent.sensible_withAssignment own (some configured)
  rw [hme]
  exact hdecision

/-- A dynamic agent that runs is apart from all others of its role that do. -/
theorem Writes.apart (hord : t.Ordered) (h : l.Writes now t me t') (hconf : l.configured = none)
    (hproper : t'.Proper l.role) (hrun : me.state = .running) :
    ∀ b, t'.Runs l.role b → b.id ≠ me.id → me.Apart b := by
  have hmem := fun p => h.mem_rows (p := p) hord
  rcases h.decides hord with ⟨own, live, t₁, hdec, hme, hid, _, _, _, hrows⟩
  have hdecision : l.decision own live =
      decideDynamic own (live.map (·.id)) (live.filter (·.id ≠ own.id)) := by
    rw [decision, hconf]
  rw [hme, hdecision] at hrun
  intro b hb hne
  -- What the table holds of others now, the decision has seen.
  have hseen : t₁.Holds b := by
    rcases (hmem _).mp hb.1 with heq | ⟨_, hbefore⟩
    · exact absurd (congrArg Prod.fst heq) hne
    · exact (hrows _ hne).mpr hbefore
  have hpeer : b ∈ live.filter (·.id ≠ own.id) := by
    refine List.mem_filter.mpr ⟨?_, decide_eq_true (by rw [hid]; exact hne)⟩
    exact (AgentTable.mem_list_iff hdec.list_eq).mpr ⟨hseen, hb.2.1⟩
  refine Agent.apart_of_leaves hb.2.2 (hproper.sensible hb.1 hb.2.1) ?_
  rw [hme, hdecision]
  exact decideDynamic_leaves hrun b hpeer

end Link

namespace AgentTable

variable {t t' : AgentTable} {role : String} {l : Link} {now : Int} {me : Agent}

/-- A pulse of a dynamic agent, or of one of another role. -/
theorem Parted.writeDynamic (hord : t.Ordered) (hparted : t.Parted role)
    (h : l.Writes now t me t') (hconf : l.role = role → l.configured = none) :
    t'.Parted role := by
  by_cases hrole : l.role = role
  · subst hrole
    have hproper := hparted.proper.write hord h (fun _ => h.sensible hparted.proper)
    exact hparted.write hord h hproper
      (fun hme => h.apart hord (hconf rfl) hproper hme.2.2)
  · refine hparted.of_subset (fun p hp hprole => ?_)
    rcases (h.mem_rows hord).mp hp with rfl | ⟨_, hbefore, _⟩
    · exact absurd ((h.role_eq hord).symm.trans hprole) hrole
    · exact hbefore

/-- Of any two records that run the numbers are there, the totals are equal and the
    indices are not. -/
theorem Parted.rows_apart (hord : t.Ordered) (h : t.Parted role) :
    t.rows.Pairwise fun p q =>
      p.2.role = role → q.2.role = role → p.2.state = .running → q.2.state = .running →
        ∃ total i j : Int, p.2.total = some total ∧ q.2.total = some total ∧
          p.2.index = some i ∧ q.2.index = some j ∧ i ≠ j := by
  -- Rows are in ascending order of their ids, so any two of them have distinct ids.
  refine hord.ascending.imp_of_mem (fun {p q} hp hq hlt hprole hqrole hprun hqrun => ?_)
  rcases h.proper p hp hprole with ⟨a, rfl, _⟩
  rcases h.proper q hq hqrole with ⟨b, rfl, _⟩
  rcases h.apart a b ⟨hp, hprole, hprun⟩ ⟨hq, hqrole, hqrun⟩ (Int.ne_of_lt hlt) with
    ⟨s, s', hs, hs', htotal, hindex⟩
  rcases Agent.assignment_eq_some_iff.mp hs with ⟨hat, hai⟩
  rcases Agent.assignment_eq_some_iff.mp hs' with ⟨hbt, hbi⟩
  refine ⟨s.total.toNat, s.index.toNat, s'.index.toNat, ?_, ?_, ?_, ?_, fun heq => hindex ?_⟩
  · simp only [Agent.row, hat, Option.map_some]
  · simp only [Agent.row, htotal, hbt, Option.map_some]
  · simp only [Agent.row, hai, Option.map_some]
  · simp only [Agent.row, hbi, Option.map_some]
  · exact UInt32.toNat_inj.mp (Int.ofNat_inj.mp heq)

end AgentTable

end Dynamic

end OutboxCluster
