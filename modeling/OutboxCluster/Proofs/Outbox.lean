import OutboxCluster.Proofs.Fallible
import OutboxCluster.Proofs.Table
import OutboxCluster.Outbox

/-!
# What a Search Finds

A search reads stored events, and an event that was read has the hash that is
stored. The bounds of a search within a shard are the bounds of the shard, so what
such a search finds lies in the range of the shard. Events are found in the order of
their ids, up to a limit, so none is found twice, and no row of the shard that stands
before an event that is found is passed over. Events that are added get the ids that
come next.

An outbox only ever loses events, or gets ones that come after all others. What follows
from this alone, whoever does it, is a law of `Outbox.Succeeds`.

## Main definitions

* `OutboxEvent.stored`: An event as it stands in the outbox.
* `Outbox.pending`: The rows of a shard.
* `Outbox.Hashed`: All hashes are those of the keys.
* `Outbox.Succeeds`: What can become of an outbox.

## Theorems

* `EventRow.read_eq_ok_iff`: What is read is what was stored.
* `Outbox.exists_of_search`: Events that are found are in the outbox.
* `Outbox.search_mem_range`: Events that are found lie in the range of the shard.
* `Outbox.ascending_search`, `Outbox.nodup_search`: Events are found in order, and none twice.
* `Outbox.search_first`: Nothing is passed over.
* `Outbox.search_take`, `Outbox.pending_delete`, `Outbox.search_delete_take`: A search in parts.
* `Outbox.rows_enqueueAll`, `Outbox.mem_ids_enqueueAll`: Adding events takes none away,
  and which ids they get.
* `Outbox.Succeeds.hashed`: Hashes go on to be those of the keys.
-/

namespace OutboxCluster

/-- A stored event is read as an event exactly if it is the stored form of it. -/
theorem EventRow.read_eq_ok_iff {id : Int} {row : EventRow} {e : OutboxEvent} :
    row.read id = .ok e ↔ id = e.id ∧ row = ⟨e.key, e.hash.toNat, e.payload⟩ := by
  obtain ⟨key, hash, payload⟩ := row
  unfold read
  by_cases hword : 0 ≤ hash ∧ hash < 4294967296
  · rw [if_pos hword]
    have hback := cutDown_toNat hword.1 hword.2
    constructor
    · intro h
      rw [← Except.ok.inj h]
      exact ⟨rfl, by rw [hback]⟩
    · rintro ⟨rfl, hrow⟩
      rw [EventRow.mk.injEq] at hrow
      rcases hrow with ⟨rfl, rfl, rfl⟩
      rw [Int.toNat_natCast, UInt32.ofNat_toNat]
  · rw [if_neg hword]
    simp only [reduceCtorEq, EventRow.mk.injEq, false_iff, not_and]
    intro _ _ hhash
    have := e.hash.toNat_lt
    omega

/-- The event as it stands in the outbox, with its id. -/
def OutboxEvent.stored (e : OutboxEvent) : Int × EventRow :=
  (e.id, ⟨e.key, e.hash.toNat, e.payload⟩)

namespace Outbox

variable {t : Outbox} {assignment : Option Assignment} {limit : Nat} {events : List OutboxEvent}

/-- An event that is found is in the outbox, and its hash is eligible. -/
theorem exists_of_search (h : t.search assignment limit = .ok events) {e : OutboxEvent}
    (he : e ∈ events) : (e.id, ⟨e.key, e.hash.toNat, e.payload⟩) ∈ t.rows ∧
      eligible assignment e.hash.toNat = true := by
  rcases exists_of_mapM h he with ⟨⟨id, row⟩, hmem, hread⟩
  rcases EventRow.read_eq_ok_iff.mp hread with ⟨rfl, rfl⟩
  exact List.mem_filter.mp (List.mem_of_mem_take hmem)

/-- Events that are added come after those that are there. -/
theorem rows_enqueueAll (keys : List String) (t : Outbox) :
    t.rows <+: (keys.foldl (fun t key => t.enqueue key []) t).rows := by
  induction keys generalizing t with
  | nil => exact List.prefix_refl _
  | cons key keys ih => exact (List.prefix_append _ _).trans (ih (t.enqueue key []))

theorem lastId_enqueueAll (keys : List String) (t : Outbox) :
    (keys.foldl (fun t key => t.enqueue key []) t).lastId = t.lastId + keys.length := by
  induction keys generalizing t with
  | nil => exact (Int.add_zero _).symm
  | cons key keys ih =>
      have hnext : (t.enqueue key []).lastId = t.lastId + 1 := rfl
      rw [List.foldl_cons, ih, hnext, List.length_cons]
      omega

theorem ordered_enqueueAll (keys : List String) {t : Outbox} (h : t.Ordered) :
    (keys.foldl (fun t key => t.enqueue key []) t).Ordered := by
  induction keys generalizing t with
  | nil => exact h
  | cons key keys ih => exact ih (h.insert (EventRow.ofKey key []))

/-- Events that are added get the next ids. -/
theorem mem_ids_enqueueAll (keys : List String) (t : Outbox) {id : Int} :
    id ∈ (keys.foldl (fun t key => t.enqueue key []) t).ids ↔
      id ∈ t.ids ∨ t.lastId < id ∧ id ≤ t.lastId + keys.length := by
  induction keys generalizing t with
  | nil =>
      have hnone : ¬ (t.lastId < id ∧ id ≤ t.lastId + ([] : List String).length) := by
        rw [List.length_nil]
        omega
      rw [List.foldl_nil, or_iff_left hnone]
  | cons key keys ih =>
      have hfirst : id ∈ (t.enqueue key []).ids ↔ id ∈ t.ids ∨ id = t.nextId :=
        Table.mem_ids_insert
      have hnext : (t.enqueue key []).lastId = t.lastId + 1 := rfl
      have hnew : t.nextId = t.lastId + 1 := rfl
      -- The first key takes the next id, and the others those after it.
      rw [List.foldl_cons, ih, hfirst, hnext, hnew, or_assoc, List.length_cons]
      refine or_congr_right ?_
      omega

/-- What is read has the ids that are stored. -/
theorem ids_mapM_read {rows : List (Int × EventRow)} {events : List OutboxEvent}
    (h : rows.mapM (fun (id, row) => row.read id) = .ok events) :
    events.map (·.id) = rows.map (·.1) := by
  have hread := mapM_eq_ok_iff.mp h
  clear h
  induction hread with
  | nil => rfl
  | cons hone _ ih => rw [List.map_cons, List.map_cons, ih, (EventRow.read_eq_ok_iff.mp hone).1]

/-- Events are found in ascending order of their ids. -/
theorem ascending_search (hord : t.Ordered) (h : t.search assignment limit = .ok events) :
    (events.map (·.id)).Pairwise (· < ·) := by
  rw [ids_mapM_read h]
  have hfound := (List.take_sublist limit _).trans
    (List.filter_sublist (p := fun (_, row) => eligible assignment row.hash) (l := t.rows))
  exact List.pairwise_map.mpr (hord.ascending.sublist hfound)

/-- No event is found twice. -/
theorem nodup_search (hord : t.Ordered) (h : t.search assignment limit = .ok events) :
    (events.map (·.id)).Nodup :=
  (ascending_search hord h).imp Int.ne_of_lt

theorem length_search_le (h : t.search assignment limit = .ok events) :
    events.length ≤ limit := by
  rw [← (mapM_eq_ok_iff.mp h).length_eq]
  exact List.length_take_le limit _

/-- A member of a list in ascending order that is not above one of its first members is one
    of these as well. -/
theorem mem_take_of_le {rows : List (Int × EventRow)} (hasc : rows.Pairwise (·.1 < ·.1))
    {p q : Int × EventRow} (hp : p ∈ rows) (hq : q ∈ rows.take limit) (hle : p.1 ≤ q.1) :
    p ∈ rows.take limit := by
  rw [← List.take_append_drop limit rows] at hp hasc
  rcases List.mem_append.mp hp with hfirst | hlater
  · exact hfirst
  · have hlt := (List.pairwise_append.mp hasc).2.2 q hq p hlater
    omega

/-- Nothing is passed over: an eligible row that is not above an event that is found is found
    as well. -/
theorem search_first (hord : t.Ordered) (h : t.search assignment limit = .ok events)
    {p : Int × EventRow} (hp : p ∈ t.rows) (heligible : eligible assignment p.2.hash = true)
    {e : OutboxEvent} (he : e ∈ events) (hle : p.1 ≤ e.id) :
    ∃ e' ∈ events, p = (e'.id, ⟨e'.key, e'.hash.toNat, e'.payload⟩) := by
  rcases exists_of_mapM h he with ⟨⟨id, row⟩, hmem, hread⟩
  rcases EventRow.read_eq_ok_iff.mp hread with ⟨rfl, _⟩
  have hfound := mem_take_of_le (hord.ascending.filter _) (List.mem_filter.mpr ⟨hp, heligible⟩)
    hmem hle
  rcases mem_of_mapM h hfound with ⟨e', he', hread'⟩
  rcases EventRow.read_eq_ok_iff.mp hread' with ⟨hid, hrow⟩
  exact ⟨e', he', Prod.ext hid hrow⟩

/-- The rows of a shard, in ascending order of their ids. -/
def pending (t : Outbox) (assignment : Option Assignment) : List (Int × EventRow) :=
  t.rows.filter fun (_, row) => eligible assignment row.hash

/-- A search reads the first rows of its shard. -/
theorem search_eq_ok_iff : t.search assignment limit = .ok events ↔
    List.Forall₂ (fun p e => p.2.read p.1 = .ok e) ((t.pending assignment).take limit) events :=
  mapM_eq_ok_iff

theorem length_search (h : t.search assignment limit = .ok events) :
    events.length = min limit (t.pending assignment).length := by
  rw [← (search_eq_ok_iff.mp h).length_eq, List.length_take]

/-- The ids that are found are those of the first rows. -/
theorem ids_search (h : t.search assignment limit = .ok events) :
    events.map (·.id) = ((t.pending assignment).take limit).map (·.1) :=
  ids_mapM_read h

/-- A search with a lower limit finds the first of the events. -/
theorem search_take {k : Nat} (h : t.search assignment limit = .ok events) (hle : k ≤ limit) :
    t.search assignment k = .ok (events.take k) := by
  have hread := List.forall₂_take k (search_eq_ok_iff.mp h)
  rw [List.take_take, Nat.min_eq_left hle] at hread
  exact search_eq_ok_iff.mpr hread

/-- Without the events that a search has found, the rest of the shard is left. -/
theorem pending_delete (hord : t.Ordered) (h : t.search assignment limit = .ok events) :
    Outbox.pending (t.delete (events.map (·.id))) assignment =
      (t.pending assignment).drop limit := by
  have hasc : (t.pending assignment).Pairwise (·.1 < ·.1) := hord.ascending.filter _
  have hcomm : Outbox.pending (t.delete (events.map (·.id))) assignment =
      (t.pending assignment).filter fun row => ! (events.map (·.id)).contains row.1 := by
    simp only [pending, Table.delete, List.filter_filter, Bool.and_comm]
  rw [hcomm, ids_search h]
  generalize t.pending assignment = rows at hasc
  have hsplit : rows.filter (fun row => ! ((rows.take limit).map (·.1)).contains row.1) =
      (rows.take limit ++ rows.drop limit).filter
        fun row => ! ((rows.take limit).map (·.1)).contains row.1 := by
    rw [List.take_append_drop]
  rw [← List.take_append_drop limit rows] at hasc
  rw [hsplit, List.filter_append, List.filter_eq_nil_iff.mpr, List.nil_append,
    List.filter_eq_self.mpr]
  · -- The ids of later rows are larger.
    intro q hq
    simp only [Bool.not_eq_true', List.contains_eq_mem, decide_eq_false_iff_not, List.mem_map,
      not_exists, not_and]
    intro p hp heq
    have hlt := (List.pairwise_append.mp hasc).2.2 p hp q hq
    omega
  · intro p hp
    simp only [Bool.not_eq_true', List.contains_eq_mem, decide_eq_false_iff_not, not_not]
    exact List.mem_map_of_mem hp

/-- What comes after the first events of a search is found once these are gone. -/
theorem search_delete_take {k m : Nat} (hord : t.Ordered)
    (h : t.search assignment (k + m) = .ok events) :
    Outbox.search (t.delete ((events.take k).map (·.id))) assignment m = .ok (events.drop k) := by
  have hread := List.forall₂_drop k (search_eq_ok_iff.mp h)
  rw [List.drop_take, Nat.add_sub_cancel_left] at hread
  rw [search_eq_ok_iff, pending_delete hord (search_take h (Nat.le_add_right k m))]
  exact hread

/-- What is found within a shard lies in its range. -/
theorem search_mem_range {a : Assignment} (h : t.search (some a) limit = .ok events)
    {e : OutboxEvent} (he : e ∈ events) : a.hashRange.1 ≤ e.hash ∧ e.hash ≤ a.hashRange.2 := by
  have heligible := (exists_of_search h he).2
  simp only [eligible, Bool.and_eq_true, decide_eq_true_eq] at heligible
  rw [UInt32.le_iff_toNat_le, UInt32.le_iff_toNat_le]
  omega

section Successors

variable {t' t'' : Outbox}

/-- Every event is stored with the hash of its key. -/
def Hashed (t : Outbox) : Prop := ∀ p ∈ t.rows, p.2.hash = (routingHash p.2.key).toNat

/-- Events were taken away and others were added, which got the ids that come next and the
    hashes of their keys. -/
structure Succeeds (t t' : Outbox) : Prop where
  lastId_le : t.lastId ≤ t'.lastId
  rows : ∀ p ∈ t'.rows, p ∈ t.rows ∨
    t.lastId < p.1 ∧ p.2.hash = (routingHash p.2.key).toNat
  ordered : t.Ordered → t'.Ordered

namespace Succeeds

theorem refl (t : Outbox) : Succeeds t t := ⟨Int.le_refl _, fun _ hp => Or.inl hp, id⟩

theorem trans (h : Succeeds t t') (h' : Succeeds t' t'') : Succeeds t t'' where
  lastId_le := Int.le_trans h.lastId_le h'.lastId_le
  rows := by
    intro p hp
    rcases h'.rows p hp with hbefore | ⟨hnew, hhash⟩
    · exact h.rows p hbefore
    · exact Or.inr ⟨Int.lt_of_le_of_lt h.lastId_le hnew, hhash⟩
  ordered := h'.ordered ∘ h.ordered

theorem delete (t : Outbox) (ids : List Int) : Succeeds t (t.delete ids) where
  lastId_le := Int.le_refl _
  rows := fun _ hp => Or.inl (Table.mem_delete.mp hp).1
  ordered := fun h => h.delete ids

theorem insert (t : Outbox) {row : EventRow} (hhash : row.hash = (routingHash row.key).toNat) :
    Succeeds t (t.insert row) where
  lastId_le := Int.le_of_lt (Int.lt_succ t.lastId)
  rows := by
    intro p hp
    rcases Table.mem_insert.mp hp with hbefore | rfl
    · exact Or.inl hbefore
    · exact Or.inr ⟨Int.lt_succ t.lastId, hhash⟩
  ordered := fun h => h.insert row

theorem enqueue (t : Outbox) (key : String) (payload : List UInt8) :
    Succeeds t (t.enqueue key payload) :=
  insert t rfl

theorem enqueueAll (keys : List String) (t : Outbox) :
    Succeeds t (keys.foldl (fun t key => t.enqueue key []) t) := by
  induction keys generalizing t with
  | nil => exact refl t
  | cons key keys ih => exact (enqueue t key []).trans (ih (t.enqueue key []))

theorem hashed (h : Succeeds t t') (hhashed : t.Hashed) : t'.Hashed :=
  fun p hp => (h.rows p hp).elim (hhashed p) And.right

end Succeeds

end Successors

end Outbox

end OutboxCluster
