import OutboxCluster.Table

/-!
# Tables in Order

What every table has in common that was made by adding, changing and removing
rows: its rows stand in ascending order of their ids, and no id is above the
largest one that was ever given. A row that is added now therefore stands last,
under an id that nobody has seen, and an id names at most one row.

Each operation is described by its rows, as a membership, because the laws about
tables speak of single rows and never of the list that holds them.

## Main definitions

* `Table.ids`: The ids of the rows.
* `Table.Ordered`: Rows in ascending order, below the largest id ever given.

## Theorems

* `insertAll_eq_foldl`: Adding rows together is adding one after the other.
* `mem_insert`, `mem_delete`, `mem_modify`: The rows after an operation.
* `Ordered.insert`, `Ordered.delete`, `Ordered.modify`: Order is kept.
* `Ordered.eq_of_id_eq`: An id names at most one row.
* `Ordered.nextId_not_mem`: The next id is a new one.
-/

namespace OutboxCluster

namespace Table

variable {α : Type}

/-- The ids of the rows. -/
def ids (t : Table α) : List Int := t.rows.map (·.1)

theorem mem_ids {t : Table α} {id : Int} : id ∈ t.ids ↔ ∃ row, (id, row) ∈ t.rows := by
  simp only [ids, List.mem_map, Prod.exists, exists_and_right, exists_eq_right]

theorem mem_ids_of_mem {t : Table α} {p : Int × α} (h : p ∈ t.rows) : p.1 ∈ t.ids :=
  mem_ids.mpr ⟨p.2, h⟩

@[simp] theorem lastId_insert (t : Table α) (row : α) : (t.insert row).lastId = t.nextId := rfl

@[simp] theorem lastId_delete (t : Table α) (ids : List Int) : (t.delete ids).lastId = t.lastId :=
  rfl

@[simp] theorem nextId_delete (t : Table α) (ids : List Int) : (t.delete ids).nextId = t.nextId :=
  rfl

@[simp] theorem lastId_modify (t : Table α) (id : Int) (change : α → α) :
    (t.modify id change).lastId = t.lastId := rfl

/-- Rows that are added together are added one after the other. -/
theorem insertAll_eq_foldl (rows : List α) (t : Table α) :
    t.insertAll rows = rows.foldl insert t := by
  induction rows generalizing t with
  | nil => simp only [insertAll, List.mapIdx_nil, List.append_nil, List.length_nil,
      Int.natCast_zero, Int.add_zero, List.foldl_nil]
  | cons row rows ih =>
      -- Positions are counted from the second row on after the first one was added.
      have hid : ∀ i : Nat, t.lastId + 1 + ((i + 1 : Nat) : Int) = t.lastId + 1 + 1 + i := by
        intro i
        omega
      have hlast : t.lastId + ((rows.length + 1 : Nat) : Int) = t.lastId + 1 + rows.length := by
        omega
      rw [List.foldl_cons, ← ih]
      simp only [insertAll, insert, nextId, List.mapIdx_cons, List.append_assoc,
        List.singleton_append, List.length_cons, hid, hlast, Int.natCast_zero, Int.add_zero]

theorem mem_insert {t : Table α} {row : α} {p : Int × α} :
    p ∈ (t.insert row).rows ↔ p ∈ t.rows ∨ p = (t.nextId, row) := by
  simp only [insert, List.mem_append, List.mem_singleton]

theorem mem_ids_insert {t : Table α} {row : α} {id : Int} :
    id ∈ (t.insert row).ids ↔ id ∈ t.ids ∨ id = t.nextId := by
  simp only [ids, insert, List.map_append, List.map_cons, List.map_nil, List.mem_append,
    List.mem_singleton]

theorem mem_delete {t : Table α} {ids : List Int} {p : Int × α} :
    p ∈ (t.delete ids).rows ↔ p ∈ t.rows ∧ p.1 ∉ ids := by
  simp only [delete, List.mem_filter, Bool.not_eq_eq_eq_not, Bool.not_true,
    List.contains_eq_mem, decide_eq_false_iff_not]

theorem mem_ids_delete {t : Table α} {ids : List Int} {id : Int} :
    id ∈ (t.delete ids).ids ↔ id ∈ t.ids ∧ id ∉ ids := by
  simp only [mem_ids, mem_delete, exists_and_right]

@[simp] theorem delete_nil (t : Table α) : t.delete [] = t := by
  simp only [delete, List.contains_nil, Bool.not_false, List.filter_eq_self.mpr, implies_true]

theorem mem_modify {t : Table α} {id : Int} {change : α → α} {p : Int × α} :
    p ∈ (t.modify id change).rows ↔
      (p ∈ t.rows ∧ p.1 ≠ id) ∨ ∃ row, (id, row) ∈ t.rows ∧ p = (id, change row) := by
  simp only [modify, List.mem_map, Prod.exists]
  constructor
  · rintro ⟨i, row, hmem, rfl⟩
    by_cases hi : i = id
    · subst hi
      exact Or.inr ⟨row, hmem, if_pos rfl⟩
    · rw [if_neg hi]
      exact Or.inl ⟨hmem, hi⟩
  · rintro (⟨hmem, hne⟩ | ⟨row, hmem, rfl⟩)
    · exact ⟨p.1, p.2, hmem, if_neg hne⟩
    · exact ⟨id, row, hmem, if_pos rfl⟩

/-- Rows stand in ascending order of their ids, and no id is above the largest
    one that was ever given. -/
structure Ordered (t : Table α) : Prop where
  ascending : t.rows.Pairwise (·.1 < ·.1)
  le_lastId : ∀ p ∈ t.rows, p.1 ≤ t.lastId

theorem ordered_empty : Ordered ({} : Table α) where
  ascending := List.Pairwise.nil
  le_lastId := fun _ hp => absurd hp List.not_mem_nil

namespace Ordered

variable {t : Table α}

theorem insert (h : t.Ordered) (row : α) : (t.insert row).Ordered where
  ascending := by
    refine List.pairwise_append.mpr ⟨h.ascending, List.pairwise_singleton _ _, ?_⟩
    intro p hp q hq
    rw [List.mem_singleton] at hq
    subst hq
    have := h.le_lastId p hp
    simp only [nextId]
    omega
  le_lastId := by
    intro p hp
    rw [lastId_insert]
    rcases mem_insert.mp hp with hp | rfl
    · have := h.le_lastId p hp
      simp only [nextId]
      omega
    · exact Int.le_refl _

theorem delete (h : t.Ordered) (ids : List Int) : (t.delete ids).Ordered where
  ascending := h.ascending.filter _
  le_lastId := fun p hp => h.le_lastId p (mem_delete.mp hp).1

theorem modify (h : t.Ordered) (id : Int) (change : α → α) : (t.modify id change).Ordered where
  ascending := by
    -- Only second components change, and the order looks at the first ones.
    refine List.pairwise_map.mpr (h.ascending.imp (fun {p q} hpq => ?_))
    by_cases hp : p.1 = id <;> by_cases hq : q.1 = id <;>
      simp only [hp, hq, if_true, if_false] <;> omega
  le_lastId := by
    intro p hp
    rcases mem_modify.mp hp with ⟨hp, _⟩ | ⟨row, hmem, rfl⟩
    · exact h.le_lastId p hp
    · exact h.le_lastId (id, row) hmem

/-- An id names at most one row. -/
theorem eq_of_id_eq (h : t.Ordered) {p q : Int × α} (hp : p ∈ t.rows) (hq : q ∈ t.rows)
    (hid : p.1 = q.1) : p = q := by
  -- Two rows in ascending order never agree in their ids, whichever comes first.
  have key : ∀ p ∈ t.rows, ∀ q ∈ t.rows, p.1 = q.1 → p = q :=
    List.Pairwise.forall_of_forall_of_flip (fun _ _ _ => rfl)
      (h.ascending.imp (fun hlt heq => absurd heq (Int.ne_of_lt hlt)))
      (h.ascending.imp (fun hlt heq => absurd heq.symm (Int.ne_of_lt hlt)))
  exact key p hp q hq hid

theorem id_le_lastId (h : t.Ordered) {id : Int} (hid : id ∈ t.ids) : id ≤ t.lastId := by
  rcases mem_ids.mp hid with ⟨row, hrow⟩
  exact h.le_lastId (id, row) hrow

/-- The next id is one that no row has. -/
theorem nextId_not_mem (h : t.Ordered) : t.nextId ∉ t.ids := by
  intro hid
  have := h.id_le_lastId hid
  simp only [nextId] at this
  omega

end Ordered

end Table

end OutboxCluster
