import OutboxCluster.Proofs.Shard

/-!
# Tiles of the Hash Space

The two ways to say which shard owns a hash describe the same partition, for every total
that a word can hold. `Proofs.Shard` says what the words of a range are worth. What is left
to say is that the machine words stand for the numbers they are meant for, and that the
ranges of one total lie next to each other.

The first is said with a second copy of the computation. `Exact.hashRange?` takes every
sum, difference and product in unbounded numbers and goes on only if the result fits the
word that it is kept in, so it has no result as soon as one step leaves its word. It always
has one, and it is the range that the words give. So no step wraps and no bit is cut off,
up to the largest total, where most of the ranges hold a single hash.

## Main definitions

* `Exact.long?`, `Exact.short?`: A number as a word, if it is one.
* `Exact.hashRange?`: The range of a shard, if no step of the computation leaves its word.
* `Exact.shardIndexFor?`: The owner of a hash, under the same condition.

## Theorems

* `Exact.hashRange?_eq`, `Exact.shardIndexFor?_eq`: No step leaves its word.
* `hash_ranges_tile`: Ranges and owners agree, and the ranges tile the hash space.
-/

namespace OutboxCluster

namespace Exact

/-- A number as a word of 64 bits, if it is one. -/
def long? (n : Int) : Option UInt64 :=
  if 0 ≤ n ∧ n < 18446744073709551616 then some (UInt64.ofNat n.toNat) else none

/-- A number as a word of 32 bits, if it is one. -/
def short? (n : Int) : Option UInt32 :=
  if 0 ≤ n ∧ n < 4294967296 then some (UInt32.ofNat n.toNat) else none

/-- A quotient of words, rounded up. Nothing is divided by zero. -/
def ceilDiv? (a b : UInt64) : Option UInt64 :=
  if b = 0 then none
  else if a % b = 0 then some (a / b)
  else long? ((a / b).toNat + 1)

/-- The first hash of range `index` of `total`. -/
def rangeStart? (index total : UInt64) : Option UInt64 := do
  let scaled ← long? (index.toNat * 4294967296)
  ceilDiv? scaled total

/-- The first and the last hash of a shard. -/
def hashRange? (a : Assignment) : Option (UInt32 × UInt32) := do
  let low ← rangeStart? a.index.toUInt64 a.total.toUInt64
  let nextIndex ← long? (a.index.toUInt64.toNat + 1)
  let next ← rangeStart? nextIndex a.total.toUInt64
  let high ← long? (next.toNat - 1)
  let first ← short? low.toNat
  let last ← short? high.toNat
  return (first, last)

/-- The shard that owns a hash. -/
def shardIndexFor? (hash total : UInt32) : Option UInt32 := do
  let product ← long? (hash.toUInt64.toNat * total.toUInt64.toNat)
  short? (product >>> 32).toNat

/-- A word is what a number is as a word exactly if it stands for the number. -/
theorem long?_eq_some_iff {n : Int} {w : UInt64} : long? n = some w ↔ (w.toNat : Int) = n := by
  have hword := w.toNat_lt
  unfold long?
  by_cases hfits : 0 ≤ n ∧ n < 18446744073709551616
  · have hback : (UInt64.ofNat n.toNat).toNat = n.toNat :=
      UInt64.toNat_ofNat_of_lt' (by unfold UInt64.size; omega)
    rw [if_pos hfits, Option.some.injEq, ← UInt64.toNat_inj, hback]
    omega
  · rw [if_neg hfits]
    exact iff_of_false (fun h => nomatch h) (by omega)

theorem short?_eq_some_iff {n : Int} {w : UInt32} : short? n = some w ↔ (w.toNat : Int) = n := by
  have hword := w.toNat_lt
  unfold short?
  by_cases hfits : 0 ≤ n ∧ n < 4294967296
  · have hback : (UInt32.ofNat n.toNat).toNat = n.toNat :=
      UInt32.toNat_ofNat_of_lt' (by unfold UInt32.size; omega)
    rw [if_pos hfits, Option.some.injEq, ← UInt32.toNat_inj, hback]
    omega
  · rw [if_neg hfits]
    exact iff_of_false (fun h => nomatch h) (by omega)

theorem ceilDiv?_eq {a b : UInt64} (hb : 0 < b.toNat)
    (ha : a.toNat / b.toNat + 1 < 18446744073709551616) : ceilDiv? a b = some (ceilDiv a b) := by
  have hne : b ≠ 0 := fun hzero => by
    rw [hzero] at hb
    exact absurd hb (by decide)
  have hone : (1 : UInt64).toNat = 1 := rfl
  unfold ceilDiv? ceilDiv
  rw [if_neg hne]
  by_cases hmod : a % b = 0
  · rw [if_pos hmod, if_pos hmod]
  · rw [if_neg hmod, if_neg hmod, long?_eq_some_iff, UInt64.toNat_add, UInt64.toNat_div, hone,
      Nat.mod_eq_of_lt ha]
    rfl

theorem rangeStart?_eq {index total : UInt64} (hindex : index.toNat < 4294967296)
    (hpos : 0 < total.toNat) : rangeStart? index total = some (rangeStart index total) := by
  have hscaled : long? (index.toNat * 4294967296) = some (index * 4294967296) := by
    rw [long?_eq_some_iff, scaled_toNat hindex]
    rfl
  rw [rangeStart?, hscaled]
  exact ceilDiv?_eq hpos (scaled_div_lt hindex)

section Steps

variable (a : Assignment)

theorem nextIndex_fits :
    long? (a.index.toUInt64.toNat + 1) = some (a.index.toUInt64 + 1) := by
  rw [long?_eq_some_iff, a.next_word, a.index_word]
  rfl

/-- The range behind a shard does not start at zero, so one can be taken off. -/
theorem high_fits : long? ((rangeStart (a.index.toUInt64 + 1) a.total.toUInt64).toNat - 1) =
    some (rangeStart (a.index.toUInt64 + 1) a.total.toUInt64 - 1) := by
  have hsome := a.start_lt_next
  rw [long?_eq_some_iff, a.next_sub_one_toNat]
  omega

theorem first_fits :
    short? (rangeStart a.index.toUInt64 a.total.toUInt64).toNat = some a.hashRange.1 := by
  rw [short?_eq_some_iff, a.hashRange_fst_toNat]

theorem last_fits :
    short? (rangeStart (a.index.toUInt64 + 1) a.total.toUInt64 - 1).toNat =
      some a.hashRange.2 := by
  rw [short?_eq_some_iff, a.next_sub_one_toNat, ← a.hashRange_snd_toNat, Nat.add_sub_cancel]

/-- No step of the computation of a range leaves its word. -/
theorem hashRange?_eq : hashRange? a = some a.hashRange := by
  unfold hashRange?
  refine Option.bind_eq_some_iff.mpr ⟨_, rangeStart?_eq a.index_word_lt a.total_word_pos, ?_⟩
  refine Option.bind_eq_some_iff.mpr ⟨_, nextIndex_fits a, ?_⟩
  refine Option.bind_eq_some_iff.mpr ⟨_, rangeStart?_eq a.next_word_lt a.total_word_pos, ?_⟩
  refine Option.bind_eq_some_iff.mpr ⟨_, high_fits a, ?_⟩
  refine Option.bind_eq_some_iff.mpr ⟨_, first_fits a, ?_⟩
  refine Option.bind_eq_some_iff.mpr ⟨_, last_fits a, ?_⟩
  rfl

end Steps

/-- No step of the search for an owner leaves its word. -/
theorem shardIndexFor?_eq (hash total : UInt32) :
    shardIndexFor? hash total = some (shardIndexFor hash total) := by
  have hproduct : long? (hash.toUInt64.toNat * total.toUInt64.toNat) =
      some (hash.toUInt64 * total.toUInt64) := by
    rw [long?_eq_some_iff, product_toNat, UInt32.toNat_toUInt64, UInt32.toNat_toUInt64]
    rfl
  unfold shardIndexFor?
  refine Option.bind_eq_some_iff.mpr ⟨_, hproduct, ?_⟩
  rw [short?_eq_some_iff, shardIndexFor_toNat, scaledDown_toNat]

end Exact

namespace Assignment

variable {a : Assignment}

/-- The first range starts with the first hash. -/
theorem hashRange_fst_of_first (hindex : a.index = 0) : a.hashRange.1 = 0 := by
  have hzero : a.index.toNat = 0 := by rw [hindex]; rfl
  have hle := (a.start_le_iff 0).mpr (by rw [hzero]; omega)
  rw [← hashRange_fst_toNat] at hle
  exact UInt32.toNat_inj.mp (Nat.le_zero.mp hle)

/-- Each range starts right behind the one before it. -/
theorem hashRange_fst_of_next {b : Assignment} (htotal : b.total = a.total)
    (hindex : b.index.toNat = a.index.toNat + 1) :
    b.hashRange.1.toNat = a.hashRange.2.toNat + 1 := by
  -- Both are the least number that reaches the same index.
  have hsame : ∀ n, b.hashRange.1.toNat ≤ n ↔ a.hashRange.2.toNat + 1 ≤ n := by
    intro n
    rw [hashRange_fst_toNat, hashRange_snd_toNat, b.start_le_iff, a.next_le_iff, htotal, hindex]
  exact Nat.le_antisymm ((hsame _).mpr (Nat.le_refl _)) ((hsame _).mp (Nat.le_refl _))

/-- The last range ends with the last hash. -/
theorem hashRange_snd_of_last (hindex : a.index.toNat + 1 = a.total.toNat) :
    a.hashRange.2.toNat = 4294967295 := by
  have hle := a.next_le
  have hreach := (a.next_le_iff _).mp (Nat.le_refl _)
  rw [hindex] at hreach
  have hge := Nat.le_of_mul_le_mul_left hreach a.total_pos
  have hend := a.hashRange_snd_toNat
  omega

end Assignment

/-- The range of a shard is computed without a step that leaves its word, and so is the owner
    of a hash. A range is not empty, and consists of the hashes whose owner the shard is. The
    owner is below the total. The first range starts with the first hash, each further one
    right behind the one before it, and the last range ends with the last hash. -/
theorem hash_ranges_tile (a : Assignment) (hash : UInt32) :
    Exact.hashRange? a = some a.hashRange ∧
    Exact.shardIndexFor? hash a.total = some (shardIndexFor hash a.total) ∧
    a.hashRange.1 ≤ a.hashRange.2 ∧
    (a.hashRange.1 ≤ hash ∧ hash ≤ a.hashRange.2 ↔ shardIndexFor hash a.total = a.index) ∧
    (a.contains hash = true ↔ shardIndexFor hash a.total = a.index) ∧
    shardIndexFor hash a.total < a.total ∧
    (a.index = 0 → a.hashRange.1 = 0) ∧
    (∀ b : Assignment, b.total = a.total → b.index.toNat = a.index.toNat + 1 →
      b.hashRange.1.toNat = a.hashRange.2.toNat + 1) ∧
    (a.index.toNat + 1 = a.total.toNat → a.hashRange.2.toNat = 4294967295) := by
  -- No range is empty, as the next one begins after it.
  have hordered : a.hashRange.1 ≤ a.hashRange.2 := by
    have hsome := a.start_lt_next
    rw [← a.hashRange_fst_toNat, ← a.hashRange_snd_toNat] at hsome
    exact UInt32.le_iff_toNat_le.mpr (Nat.le_of_lt_succ hsome)
  have hbelow : shardIndexFor hash a.total < a.total :=
    UInt32.lt_iff_toNat_lt.mpr (shardIndexFor_lt hash a.total_pos)
  exact ⟨Exact.hashRange?_eq a, Exact.shardIndexFor?_eq hash a.total, hordered,
    a.mem_hashRange_iff hash, a.contains_iff hash, hbelow, Assignment.hashRange_fst_of_first,
    fun _ => Assignment.hashRange_fst_of_next, Assignment.hashRange_snd_of_last⟩

/-- Of the largest number of shards the first one has two hashes and the last one has one. -/
example : (⟨4294967295, 0, by decide⟩ : Assignment).hashRange = (0, 1) ∧
    (⟨4294967295, 4294967294, by decide⟩ : Assignment).hashRange = (4294967295, 4294967295) := by
  decide

end OutboxCluster
