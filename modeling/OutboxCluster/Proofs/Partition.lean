import OutboxCluster.Proofs.Requests
import OutboxCluster.Proofs.Shard
import Mathlib.Data.List.Nodup

/-!
# The Outbox Shared Out

A search within a shard asks the table for the hashes between two bounds, and a router asks
of one key which shard it belongs to. The two never meet in the program: the search does
not look at keys, and nothing but the hash is stored with an event. They agree because
every row is stored with the hash of its key (`Store.hashed_run`), and because the range of
a shard consists of the hashes that are scaled down to its index
(`Assignment.mem_hashRange_iff`). So a search finds exactly the first rows whose keys are
routed to the shard.

The members of a cluster have the shards of one total, one for each position in the list of
their ids, so together they find every row, and no two of them find the same one.

## Main definitions

* `Outbox.share`: The rows whose keys are routed to a shard.

## Theorems

* `Outbox.pending_eq_share`: The rows that a search looks through are a share.
* `Outbox.exists_search`: A search succeeds, and with what.
* `Outbox.flatMap_share_perm`: The shares of the members make up the outbox.
* `Store.exists_found`: The same of what the members find.
* `searches_share_outbox_out`: After every sequence of requests, searches share the outbox out.
-/

namespace OutboxCluster

namespace Outbox

variable {t : Outbox} {assignment : Option Assignment}

/-- The rows whose keys are routed to a shard; without a shard, all rows. -/
def share (t : Outbox) (assignment : Option Assignment) : List (Int × EventRow) :=
  t.rows.filter fun (_, row) =>
    assignment.all fun a => shardIndexFor (routingHash row.key) a.total == a.index

theorem mem_share_some {a : Assignment} {p : Int × EventRow} :
    p ∈ t.share (some a) ↔ p ∈ t.rows ∧ shardIndexFor (routingHash p.2.key) a.total = a.index := by
  simp only [share, List.mem_filter, Option.all_some, beq_iff_eq]

/-- The hash of a key lies between the bounds of a shard if the key is routed to it. -/
theorem eligible_iff (a : Assignment) (hash : UInt32) :
    eligible (some a) hash.toNat = true ↔ shardIndexFor hash a.total = a.index := by
  rw [← a.mem_hashRange_iff, UInt32.le_iff_toNat_le, UInt32.le_iff_toNat_le]
  simp only [eligible, Bool.and_eq_true, decide_eq_true_eq, Int.ofNat_le]

/-- The rows that a search looks through are those whose keys are routed to the shard. -/
theorem pending_eq_share (h : t.Hashed) (assignment : Option Assignment) :
    t.pending assignment = t.share assignment := by
  cases assignment with
  | none => rfl
  | some a =>
      refine List.filter_congr fun (id, row) hp => ?_
      have hhash : row.hash = (routingHash row.key).toNat := h (id, row) hp
      dsimp only
      rw [Bool.eq_iff_iff, hhash, eligible_iff, Option.all_some, beq_iff_eq]

/-- A stored hash is a word, so every row can be read. -/
theorem read_of_hashed (h : t.Hashed) {p : Int × EventRow} (hp : p ∈ t.rows) :
    p.2.read p.1 = .ok ⟨p.1, p.2.key, routingHash p.2.key, p.2.payload⟩ := by
  refine EventRow.read_eq_ok_iff.mpr ⟨rfl, ?_⟩
  rw [← h p hp]

/-- Rows of an outbox are read as the events that they store. -/
theorem exists_reads (h : t.Hashed) {rows : List (Int × EventRow)}
    (hrows : ∀ p ∈ rows, p ∈ t.rows) :
    ∃ events, List.Forall₂ (fun p e => p.2.read p.1 = .ok e) rows events ∧
      events.map OutboxEvent.stored = rows := by
  induction rows with
  | nil => exact ⟨[], List.Forall₂.nil, rfl⟩
  | cons p rows ih =>
      rcases ih fun q hq => hrows q (List.mem_cons_of_mem p hq) with ⟨events, hreads, hstored⟩
      have hread := read_of_hashed h (hrows p List.mem_cons_self)
      have hback : OutboxEvent.stored ⟨p.1, p.2.key, routingHash p.2.key, p.2.payload⟩ = p := by
        rw [OutboxEvent.stored, ← h p (hrows p List.mem_cons_self)]
      exact ⟨_, hreads.cons hread, by rw [List.map_cons, hback, hstored]⟩

/-- A search succeeds, and finds the first rows of the share. -/
theorem exists_search (h : t.Hashed) (assignment : Option Assignment) (limit : Nat) :
    ∃ events, t.search assignment limit = .ok events ∧
      events.map OutboxEvent.stored = (t.share assignment).take limit := by
  rw [← pending_eq_share h]
  have hrows : ∀ p ∈ (t.pending assignment).take limit, p ∈ t.rows := fun p hp =>
    List.mem_of_mem_filter (List.mem_of_mem_take hp)
  rcases exists_reads h hrows with ⟨events, hreads, hstored⟩
  exact ⟨events, search_eq_ok_iff.mpr hreads, hstored⟩

section Members

variable {ids : List Int}

/-- A row belongs to the share of exactly one member. -/
theorem exists_share_owner (hnodup : ids.Nodup) (hne : ids ≠ []) (hlen : ids.length < 4294967296)
    {p : Int × EventRow} (hp : p ∈ t.rows) : ∃ owner ∈ ids, ∀ id ∈ ids,
      p ∈ t.share (dynamicAssignment ids id) ↔ id = owner := by
  rcases exists_owner hnodup hne hlen (routingHash p.2.key) with ⟨owner, howner, hunique⟩
  refine ⟨owner, howner, fun id hid => ?_⟩
  rcases dynamicAssignment_of_mem hid hlen with ⟨a, ha, _, _⟩
  rw [← hunique id hid, ha, mem_share_some, and_iff_right hp, ← a.contains_iff]
  constructor
  · intro hcontains
    exact ⟨a, rfl, hcontains⟩
  · rintro ⟨_, heq, hcontains⟩
    rw [← Option.some.inj heq] at hcontains
    exact hcontains

theorem disjoint_share (hnodup : ids.Nodup) (hlen : ids.length < 4294967296) {id id' : Int}
    (hid : id ∈ ids) (hid' : id' ∈ ids) (hdiffer : id ≠ id') :
    List.Disjoint (t.share (dynamicAssignment ids id)) (t.share (dynamicAssignment ids id')) := by
  intro p hp hp'
  have hmem := List.mem_of_mem_filter hp
  rcases exists_share_owner hnodup (List.ne_nil_of_mem hid) hlen hmem with ⟨owner, _, hunique⟩
  exact hdiffer (((hunique id hid).mp hp).trans ((hunique id' hid').mp hp').symm)

/-- The shares of the members make up the outbox. -/
theorem flatMap_share_perm (hord : t.Ordered) (hnodup : ids.Nodup) (hne : ids ≠ [])
    (hlen : ids.length < 4294967296) :
    (ids.flatMap fun id => t.share (dynamicAssignment ids id)).Perm t.rows := by
  have hrows : t.rows.Nodup := hord.ascending.imp fun {p q} hlt heq => by
    rw [heq] at hlt
    exact Int.lt_irrefl _ hlt
  refine (List.perm_ext_iff_of_nodup ?_ hrows).mpr fun p => ?_
  · -- Shares have no row twice, and two of them have none in common.
    refine List.nodup_flatMap.mpr ⟨fun id _ => hrows.filter _, ?_⟩
    exact hnodup.imp_of_mem fun {id id'} hid hid' hdiffer =>
      disjoint_share hnodup hlen hid hid' hdiffer
  · rw [List.mem_flatMap]
    constructor
    · rintro ⟨id, _, hp⟩
      exact List.mem_of_mem_filter hp
    · intro hp
      rcases exists_share_owner hnodup hne hlen hp with ⟨owner, howner, hunique⟩
      exact ⟨owner, howner, (hunique owner howner).mpr rfl⟩

end Members

end Outbox

section Members

variable {ids : List Int} {id id' : Int}

/-- A stranger has no shard. -/
theorem dynamicAssignment_of_not_mem (hmem : id ∉ ids) : dynamicAssignment ids id = none := by
  have hnone : ids.findIdx? (· == id) = none := by
    refine List.findIdx?_eq_none_iff.mpr fun other hother => ?_
    exact beq_eq_false_iff_ne.mpr fun heq => hmem (heq ▸ hother)
  rw [dynamicAssignment, hnone]

/-- Members differ in the indices of their shards. -/
theorem eq_of_dynamicAssignment_index {a a' : Assignment} (hlen : ids.length < 4294967296)
    (hid : id ∈ ids) (hid' : id' ∈ ids) (ha : dynamicAssignment ids id = some a)
    (ha' : dynamicAssignment ids id' = some a') (hindex : a.index = a'.index) : id = id' := by
  rcases dynamicAssignment_of_mem hid hlen with ⟨s, hs, _, hpos⟩
  rcases dynamicAssignment_of_mem hid' hlen with ⟨s', hs', _, hpos'⟩
  rw [← Option.some.inj (ha.symm.trans hs)] at hpos
  rw [← Option.some.inj (ha'.symm.trans hs'), ← hindex, hpos] at hpos'
  exact (List.idxOf_inj hid).mp hpos'

end Members

namespace Store

variable {s : Store}

/-- An open store answers a search, and is left as it is. -/
theorem exists_search (hopen : s.closed = false) (hhashed : s.outbox.Hashed)
    (assignment : Option Assignment) (limit : Nat) :
    ∃ events, s.handle (.search assignment limit) = (.ok (.events events), s) ∧
      events.map OutboxEvent.stored = (s.outbox.share assignment).take limit := by
  rcases Outbox.exists_search hhashed assignment limit with ⟨events, hfound, hstored⟩
  refine ⟨events, ?_, hstored⟩
  simp only [handle, whenOpen, hopen, hfound]
  rfl

/-- What the members find without a limit is disjoint, and together it is the outbox. -/
theorem exists_found (hopen : s.closed = false) (hord : s.outbox.Ordered)
    (hhashed : s.outbox.Hashed) {ids : List Int} (hnodup : ids.Nodup) (hne : ids ≠ [])
    (hlen : ids.length < 4294967296) {limit : Nat} (hlimit : s.outbox.rows.length ≤ limit) :
    ∃ found : Int → List OutboxEvent,
      (∀ id ∈ ids, s.handle (.search (dynamicAssignment ids id) limit) =
        (.ok (.events (found id)), s)) ∧
      (∀ id ∈ ids, ∀ id' ∈ ids, id ≠ id' → List.Disjoint (found id) (found id')) ∧
      ((ids.flatMap found).map OutboxEvent.stored).Perm s.outbox.rows := by
  choose found hfound using fun id => exists_search hopen hhashed (dynamicAssignment ids id) limit
  have hall : ∀ id, (found id).map OutboxEvent.stored =
      s.outbox.share (dynamicAssignment ids id) := by
    intro id
    rw [(hfound id).2]
    exact List.take_of_length_le (Nat.le_trans (List.length_filter_le _ _) hlimit)
  refine ⟨found, fun id _ => (hfound id).1, fun id hid id' hid' hdiffer e he he' => ?_, ?_⟩
  · -- An event in both would be a row of two shares.
    have hmem := List.mem_map_of_mem (f := OutboxEvent.stored) he
    have hmem' := List.mem_map_of_mem (f := OutboxEvent.stored) he'
    rw [hall] at hmem hmem'
    exact Outbox.disjoint_share hnodup hlen hid hid' hdiffer hmem hmem'
  · rw [List.map_flatMap, List.flatMap_congr fun id _ => hall id]
    exact Outbox.flatMap_share_perm hord hnodup hne hlen

end Store

/-- After every sequence of requests, a search finds the first rows, in ascending order of
    their ids, whose keys are routed to the shard, and leaves the store as it is. For every
    list of members in ascending order, each member has a shard, no two have the same index,
    and strangers have none. What the members find without a limit is disjoint, and together
    it is the outbox. -/
theorem searches_share_outbox_out (requests : List Request)
    (hkeeps : ∀ r ∈ requests, r.KeepsHashes)
    (hopen : (({} : Store).run requests).closed = false) :
    let s := ({} : Store).run requests
    s.outbox.rows.Pairwise (·.1 < ·.1) ∧
    (∀ assignment limit, ∃ events,
      s.handle (.search assignment limit) = (.ok (.events events), s) ∧
      events.map OutboxEvent.stored = (s.outbox.share assignment).take limit) ∧
    ∀ ids : List Int, ids.Pairwise (· < ·) → ids ≠ [] → ids.length < 4294967296 →
      (∀ id ∈ ids, ∃ a, dynamicAssignment ids id = some a) ∧
      (∀ id ∈ ids, ∀ id' ∈ ids, ∀ a a', dynamicAssignment ids id = some a →
        dynamicAssignment ids id' = some a' → id ≠ id' → a.index ≠ a'.index) ∧
      (∀ id, id ∉ ids → dynamicAssignment ids id = none) ∧
      ∀ limit, s.outbox.rows.length ≤ limit → ∃ found : Int → List OutboxEvent,
        (∀ id ∈ ids, s.handle (.search (dynamicAssignment ids id) limit) =
          (.ok (.events (found id)), s)) ∧
        (∀ id ∈ ids, ∀ id' ∈ ids, id ≠ id' → List.Disjoint (found id) (found id')) ∧
        ((ids.flatMap found).map OutboxEvent.stored).Perm s.outbox.rows := by
  intro s
  have hord := Store.ordered_run hkeeps
  have hhashed := Store.hashed_run hkeeps
  refine ⟨hord.ascending, fun assignment limit =>
    Store.exists_search hopen hhashed assignment limit, fun ids hasc hne hlen => ?_⟩
  have hnodup : ids.Nodup := hasc.imp Int.ne_of_lt
  refine ⟨fun id hid => ?_, fun id hid id' hid' a a' ha ha' hdiffer hindex => ?_,
    fun id => dynamicAssignment_of_not_mem,
    fun limit hlimit => Store.exists_found hopen hord hhashed hnodup hne hlen hlimit⟩
  · rcases dynamicAssignment_of_mem hid hlen with ⟨a, ha, _⟩
    exact ⟨a, ha⟩
  -- Agents with one index have one id.
  · exact hdiffer (eq_of_dynamicAssignment_index hlen hid hid' ha ha' hindex)

/-- Events are added in several ways, one of them is rolled back and one is deleted, and the
    store is closed and opened again. -/
def traffic : List Request :=
  [.enqueue "a" [1], .begin, .enqueueIn "b" [2] false, .enqueueIn "k" [3] true,
    .enqueueAll [("c", []), ("d", [4]), ("e", [])], .close, .reopen, .deleteEvents [1, 9],
    .enqueue "a" []]

/-- Three members find two, one and two of the events that are left. -/
theorem searches_share_outbox_out_traffic :
    (∀ r ∈ traffic, r.KeepsHashes) ∧ (({} : Store).run traffic).closed = false ∧
    (({} : Store).run traffic).outbox.rows.map (·.1) = [2, 3, 4, 5, 6] ∧
    ([3, 8, 21].map fun id =>
      ((({} : Store).run traffic).outbox.share (dynamicAssignment [3, 8, 21] id)).map (·.1)) =
        [[2, 3], [4], [5, 6]] ∧
    (∃ events, (({} : Store).run traffic).handle
        (.search (dynamicAssignment [3, 8, 21] 21) 1) = (.ok (.events events),
          ({} : Store).run traffic) ∧
      events.map (fun e => e.stored.1) = [5]) ∧
    dynamicAssignment [3, 8, 21] 5 = none := by
  have hkeeps : ∀ r ∈ traffic, r.KeepsHashes := by decide +kernel
  have hopen : (({} : Store).run traffic).closed = false := by decide +kernel
  rcases searches_share_outbox_out traffic hkeeps hopen with ⟨_, hsearch, hmembers⟩
  rcases hsearch (dynamicAssignment [3, 8, 21] 21) 1 with ⟨events, hanswer, hstored⟩
  have hids : events.map (fun e => e.stored.1) = [5] := by
    have hmap := congrArg (List.map (·.1)) hstored
    rw [List.map_map] at hmap
    exact hmap.trans (by decide +kernel)
  exact ⟨hkeeps, hopen, by decide +kernel, by decide +kernel, ⟨events, hanswer, hids⟩,
    (hmembers [3, 8, 21] (by decide) (by decide) (by decide)).2.2.1 5 (by decide)⟩

end OutboxCluster
