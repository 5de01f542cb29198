/-!
# Shards of the Hash Space

Events are partitioned by a 32-bit routing hash. For a given number of shards
the hash space is cut into that many contiguous ranges, and shard `i` owns
range `i`. Only the hash is ever stored: which shard an event belongs to is
recomputed from the current number of shards, so a rebalance rewrites no row.

There are two ways to say which shard owns a hash. `shardIndexFor` scales the
hash into `[0, total)` and is what a router needs. `Assignment.hashRange`
gives the two ends of the range one shard owns and is what a query over
stored hashes needs. Both work on machine words; the products are taken in
64 bits, where a hash times a shard count still fits.

## Main definitions

* `Assignment`: Ownership of one shard out of a total.
* `shardIndexFor`: The shard that owns a hash.
* `Assignment.hashRange`: The first and the last hash of a shard.
* `dynamicAssignment`: The shard of one member of a list of ids.
-/

namespace OutboxCluster

/-- Ownership of one shard out of `total`. The index is below the total, so a
    total of zero admits no assignment. -/
structure Assignment where
  total : UInt32
  index : UInt32
  index_lt : index < total
deriving DecidableEq, Repr

/-- There is a second one of two shards. -/
theorem Assignment.second_lt : (1 : UInt32) < 2 := by decide

/-- The shard that owns `hash` when the hash space is cut into `total` shards:
    the hash scaled down from 2^32 to `total`. -/
def shardIndexFor (hash total : UInt32) : UInt32 :=
  ((hash.toUInt64 * total.toUInt64) >>> 32).toUInt32

/-- Quotient of two words, rounded up. -/
def ceilDiv (a b : UInt64) : UInt64 :=
  if a % b = 0 then a / b else a / b + 1

/-- First hash of range `index` of `total`, which for `index = total` is one
    past the whole hash space. -/
def rangeStart (index total : UInt64) : UInt64 :=
  ceilDiv (index * 4294967296) total

namespace Assignment

/-- The assignment with these numbers, if the index is below the total. -/
def ofNumbers? (total index : UInt32) : Option Assignment :=
  if h : index < total then some ⟨total, index, h⟩ else none

/-- The first and the last hash of the shard. -/
def hashRange (a : Assignment) : UInt32 × UInt32 :=
  let total := a.total.toUInt64
  let index := a.index.toUInt64
  ((rangeStart index total).toUInt32, (rangeStart (index + 1) total - 1).toUInt32)

/-- Whether the shard owns `hash`. -/
def contains (a : Assignment) (hash : UInt32) : Bool :=
  shardIndexFor hash a.total == a.index

/-- Written form, index before total. -/
def text (a : Assignment) : String :=
  s!"{a.index.toNat}/{a.total.toNat}"

theorem ofNumbers?_self (a : Assignment) : ofNumbers? a.total a.index = some a := by
  simp [ofNumbers?, a.index_lt]

theorem ofNumbers?_eq_some {total index : UInt32} {a : Assignment} :
    ofNumbers? total index = some a ↔ a.total = total ∧ a.index = index := by
  constructor
  · intro h
    unfold ofNumbers? at h
    split at h
    · rw [← Option.some.inj h]
      exact ⟨rfl, rfl⟩
    · exact nomatch h
  · rintro ⟨rfl, rfl⟩
    exact a.ofNumbers?_self

end Assignment

/-- The shard of `self` among the members `ids`, which are in ascending order:
    one shard per member, numbered by position. A stranger has none. -/
def dynamicAssignment (ids : List Int) (self : Int) : Option Assignment :=
  match ids.findIdx? (· == self) with
  | none => none
  | some position =>
    if ids.length < 4294967296 then
      Assignment.ofNumbers? (UInt32.ofNat ids.length) (UInt32.ofNat position)
    else
      none

end OutboxCluster
