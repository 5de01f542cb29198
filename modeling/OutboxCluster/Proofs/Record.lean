import OutboxCluster.Agent
import OutboxCluster.Proofs.Fallible
import OutboxCluster.Proofs.Table

/-!
# Records and their Agents

The table stores the numbers of a shard as integers of any size, and a decision
works on agents, whose numbers are words. The two forms fit together as well as
they can: an agent that is stored and read again is the same, and a record that
can be read at all is the stored form of what is read. So a record that can be
read need not be told apart from its agent, and `AgentTable.Holds` says that a
table has the record of an agent.

`list_eq_ok_iff` is where the two meet for a whole table. A list of agents is
what the table says exactly if the records of the role are the stored forms of
these agents, in this order; membership, order and number of the agents are
read off from that.

## Main definitions

* `AgentTable.Holds`: The table has the record of an agent.

## Theorems

* `AgentRow.read_eq_ok_iff`: What is read is what was stored.
* `list_eq_ok_iff`: What the list of a role is.
* `mem_list_iff`, `exists_of_list`: Its members are the agents that the table holds.
* `mem_overwrite`: The rows after a record was overwritten.
-/

namespace OutboxCluster

/-- A column that was written from a word is read as that word, and no other
    column is. -/
theorem columnWord_eq_ok_iff {column : String} {stored : Option Int} {word : Option UInt32} :
    columnWord column stored = .ok word ↔ stored = word.map fun n => (n.toNat : Int) := by
  cases stored with
  | none => cases word <;> simp [columnWord]
  | some n =>
      simp only [columnWord]
      by_cases hn : 0 ≤ n ∧ n < 4294967296
      · rw [if_pos hn]
        have hback := cutDown_toNat hn.1 hn.2
        cases word with
        | none => simp
        | some m =>
            simp only [Except.ok.injEq, Option.some.injEq, Option.map_some]
            constructor
            · rintro rfl
              exact hback.symm
            · intro hm
              rw [hm, Int.toNat_natCast, UInt32.ofNat_toNat]
      · rw [if_neg hn]
        cases word with
        | none => simp
        | some m =>
            have := m.toNat_lt
            simp only [reduceCtorEq, false_iff, Option.map_some, Option.some.injEq]
            omega

/-- A record is read as an agent exactly if it is the stored form of it. -/
theorem AgentRow.read_eq_ok_iff {id : Int} {row : AgentRow} {a : Agent} :
    row.read id = .ok a ↔ id = a.id ∧ row = a.row := by
  obtain ⟨role, name, expiration, state, total, index, payload⟩ := row
  constructor
  · intro h
    simp only [read, bind_eq_ok_iff, columnWord_eq_ok_iff] at h
    rcases h with ⟨t, rfl, i, rfl, h⟩
    rw [← Except.ok.inj h]
    exact ⟨rfl, rfl⟩
  · rintro ⟨rfl, hrow⟩
    simp only [Agent.row, AgentRow.mk.injEq] at hrow
    obtain ⟨rfl, rfl, rfl, rfl, ht, hi, rfl⟩ := hrow
    simp only [read, bind, Except.bind, columnWord_eq_ok_iff.mpr ht, columnWord_eq_ok_iff.mpr hi]
    rfl

theorem Agent.row_injective {a b : Agent} (hid : a.id = b.id) (hrow : a.row = b.row) : a = b := by
  have ha : a.row.read a.id = .ok a := AgentRow.read_eq_ok_iff.mpr ⟨rfl, rfl⟩
  have hb : a.row.read a.id = .ok b := AgentRow.read_eq_ok_iff.mpr ⟨hid, hrow⟩
  rw [ha] at hb
  exact Except.ok.inj hb

/-- Records are read as agents exactly if they are the stored forms of them. -/
theorem mapM_read_eq_ok_iff {rows : List (Int × AgentRow)} {agents : List Agent} :
    (rows.mapM fun (id, row) => row.read id) = .ok agents ↔
      rows = agents.map fun a => (a.id, a.row) := by
  have hread : ∀ (p : Int × AgentRow) (a : Agent),
      p.2.read p.1 = .ok a ↔ p = (a.id, a.row) := by
    intro p a
    rw [AgentRow.read_eq_ok_iff, Prod.ext_iff]
  rw [mapM_eq_ok_iff]
  simp only [hread]
  rw [← List.forall₂_map_right_iff, List.forall₂_eq_eq_eq]

namespace AgentTable

/-- The table has the record of an agent. -/
def Holds (t : AgentTable) (a : Agent) : Prop := (a.id, a.row) ∈ t.rows

/-- The list of a role is made of some agents exactly if the records of the role
    are the stored forms of these, in this order. -/
theorem list_eq_ok_iff {t : AgentTable} {role : String} {agents : List Agent} :
    t.list role = .ok agents ↔
      (t.rows.filter (·.2.role == role)) = agents.map fun a => (a.id, a.row) :=
  mapM_read_eq_ok_iff

section List

variable {t : AgentTable} {role : String} {agents : List Agent}

/-- A record of the role is that of a listed agent. -/
theorem exists_of_list (h : t.list role = .ok agents) {p : Int × AgentRow} (hp : p ∈ t.rows)
    (hrole : p.2.role = role) : ∃ a ∈ agents, p = (a.id, a.row) := by
  have hmem : p ∈ t.rows.filter (·.2.role == role) :=
    List.mem_filter.mpr ⟨hp, beq_iff_eq.mpr hrole⟩
  rw [list_eq_ok_iff.mp h, List.mem_map] at hmem
  rcases hmem with ⟨a, ha, rfl⟩
  exact ⟨a, ha, rfl⟩

/-- The listed agents are those of the role that the table holds. -/
theorem mem_list_iff (h : t.list role = .ok agents) {a : Agent} :
    a ∈ agents ↔ t.Holds a ∧ a.role = role := by
  constructor
  · intro ha
    have hmem : (a.id, a.row) ∈ t.rows.filter (·.2.role == role) := by
      rw [list_eq_ok_iff.mp h]
      exact List.mem_map_of_mem ha
    rw [List.mem_filter, beq_iff_eq] at hmem
    exact hmem
  · rintro ⟨hheld, hrole⟩
    rcases exists_of_list h hheld hrole with ⟨b, hb, heq⟩
    rw [Prod.mk.injEq] at heq
    rw [Agent.row_injective heq.1 heq.2]
    exact hb

theorem length_list_le (h : t.list role = .ok agents) : agents.length ≤ t.rows.length := by
  have hlen := congrArg List.length (list_eq_ok_iff.mp h)
  rw [List.length_map] at hlen
  rw [← hlen]
  exact List.length_filter_le _ _

end List

/-- An id names at most one agent. -/
theorem Holds.eq_of_id_eq {t : AgentTable} (hord : t.Ordered) {a b : Agent} (ha : t.Holds a)
    (hb : t.Holds b) (hid : a.id = b.id) : a = b := by
  have heq := hord.eq_of_id_eq ha hb hid
  rw [Prod.mk.injEq] at heq
  exact Agent.row_injective heq.1 heq.2

/-- Whether there is a record to overwrite. -/
theorem holds_iff {t : AgentTable} {a : Agent} :
    t.holds a = true ↔ ∃ row, (a.id, row) ∈ t.rows ∧ row.role = a.role := by
  simp only [holds, List.any_eq_true, Bool.and_eq_true, beq_iff_eq, Prod.exists]
  constructor
  · rintro ⟨id, row, hmem, rfl, hrole⟩
    exact ⟨row, hmem, hrole⟩
  · rintro ⟨row, hmem, hrole⟩
    exact ⟨a.id, row, hmem, rfl, hrole⟩

/-- The rows after the record of an agent was overwritten, where there is one:
    that of the agent, and all those with another id. -/
theorem mem_overwrite {t : AgentTable} {a : Agent} (hord : t.Ordered) (h : t.holds a = true)
    {p : Int × AgentRow} :
    p ∈ (t.overwrite a).rows ↔ p = (a.id, a.row) ∨ (p ∈ t.rows ∧ p.1 ≠ a.id) := by
  rcases holds_iff.mp h with ⟨row, hrow, hrole⟩
  rw [overwrite, Table.mem_modify]
  constructor
  · rintro (hp | ⟨row', hrow', rfl⟩)
    · exact Or.inr hp
    · -- The one row with this id is the one whose role agrees.
      have hsame := hord.eq_of_id_eq hrow' hrow rfl
      rw [Prod.mk.injEq] at hsame
      rw [hsame.2, if_pos hrole]
      exact Or.inl rfl
  · rintro (rfl | hp)
    · exact Or.inr ⟨row, hrow, by rw [if_pos hrole]⟩
    · exact Or.inl hp

theorem ordered_overwrite {t : AgentTable} (h : t.Ordered) (a : Agent) :
    (t.overwrite a).Ordered :=
  h.modify _ _

@[simp] theorem lastId_overwrite (t : AgentTable) (a : Agent) :
    (t.overwrite a).lastId = t.lastId := rfl

end AgentTable

end OutboxCluster
