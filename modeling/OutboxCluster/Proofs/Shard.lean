import OutboxCluster.Shard
import Mathlib.Data.List.Basic

/-!
# The Shards of a Membership

Members that are numbered by their position in one list divide the hash space among
themselves: each of them has a shard of one total, and every hash belongs to exactly
one. The number of members has to fit into a word. It is then the total, and a hash
that is scaled down from the hash space to the total is the position of a member.

## Theorems

* `shardIndexFor_toNat`: A hash scaled down, as a number.
* `Assignment.start_lt_next`, `Assignment.hashRange_snd_toNat`: No range is empty, and each ends
  right before the next one.
* `Assignment.mem_hashRange_iff`: A shard owns the hashes in its range, and no others.
* `dynamicAssignment_of_mem`: The shard of a member.
* `idxOf_eq_countP`: The position of an id among ascending ones is its rank.
* `exists_owner`: Every hash has exactly one owner.
-/

namespace OutboxCluster

/-- Nothing is lost in the product, which is taken in 64 bits. -/
theorem product_toNat (hash total : UInt32) :
    (hash.toUInt64 * total.toUInt64).toNat = hash.toNat * total.toNat := by
  have hhash := hash.toNat_lt
  have htotal := total.toNat_lt
  have hprod : hash.toNat * total.toNat < 18446744073709551616 := by
    calc hash.toNat * total.toNat
        ≤ 4294967295 * 4294967295 := Nat.mul_le_mul (by omega) (by omega)
      _ < 18446744073709551616 := by decide
  rw [UInt64.toNat_mul, UInt32.toNat_toUInt64, UInt32.toNat_toUInt64]
  exact Nat.mod_eq_of_lt hprod

theorem scaledDown_toNat (hash total : UInt32) :
    ((hash.toUInt64 * total.toUInt64) >>> 32).toNat = hash.toNat * total.toNat / 4294967296 := by
  rw [UInt64.toNat_shiftRight, product_toNat, UInt64.toNat_ofNat, Nat.shiftRight_eq_div_pow]

/-- What is left of the product fits a word of 32 bits. -/
theorem scaledDown_lt (hash total : UInt32) :
    ((hash.toUInt64 * total.toUInt64) >>> 32).toNat < 4294967296 := by
  rw [scaledDown_toNat, Nat.div_lt_iff_lt_mul (by decide)]
  exact Nat.mul_lt_mul'' hash.toNat_lt total.toNat_lt

theorem shardIndexFor_toNat (hash total : UInt32) :
    (shardIndexFor hash total).toNat = hash.toNat * total.toNat / 4294967296 := by
  rw [shardIndexFor, UInt64.toNat_toUInt32, ← scaledDown_toNat]
  exact Nat.mod_eq_of_lt (scaledDown_lt hash total)

/-- A hash belongs to one of the shards, if there is any. -/
theorem shardIndexFor_lt (hash : UInt32) {total : UInt32} (htotal : 0 < total.toNat) :
    (shardIndexFor hash total).toNat < total.toNat := by
  have hhash := hash.toNat_lt
  rw [shardIndexFor_toNat, Nat.div_lt_iff_lt_mul (by decide), Nat.mul_comm total.toNat]
  exact Nat.mul_lt_mul_of_pos_right hhash htotal

/-- A quotient that is rounded up is the least factor that reaches the dividend. -/
theorem ceilDiv_toNat_le_iff {a b : UInt64} (hb : 0 < b.toNat)
    (ha : a.toNat / b.toNat + 1 < 18446744073709551616) (n : Nat) :
    (ceilDiv a b).toNat ≤ n ↔ a.toNat ≤ b.toNat * n := by
  have hsum : b.toNat * (a.toNat / b.toNat) + a.toNat % b.toNat = a.toNat := Nat.div_add_mod _ _
  have hrest : a.toNat % b.toNat < b.toNat := Nat.mod_lt _ hb
  have hzero : a % b = 0 ↔ a.toNat % b.toNat = 0 := by
    rw [← UInt64.toNat_inj, UInt64.toNat_mod]
    rfl
  unfold ceilDiv
  by_cases hmod : a % b = 0
  · rw [if_pos hmod, UInt64.toNat_div]
    rw [hzero.mp hmod, Nat.add_zero] at hsum
    rw [← hsum, Nat.mul_div_cancel_left _ hb]
    exact (Nat.mul_le_mul_left_iff hb).symm
  -- With a rest the quotient is one too small, and to add one does not leave the word.
  · have hpos : 0 < a.toNat % b.toNat := Nat.pos_of_ne_zero fun h => hmod (hzero.mpr h)
    have hone : (1 : UInt64).toNat = 1 := rfl
    rw [if_neg hmod, UInt64.toNat_add, UInt64.toNat_div, hone, Nat.mod_eq_of_lt ha]
    constructor
    · intro hle
      have hreach := Nat.mul_le_mul_left b.toNat hle
      rw [Nat.mul_add, Nat.mul_one] at hreach
      omega
    · intro hle
      by_contra hlt
      have hshort := Nat.mul_le_mul_left b.toNat (Nat.lt_succ_iff.mp (Nat.not_le.mp hlt))
      omega

/-- Nothing is lost when a number of shards is scaled up to the hash space. -/
theorem scaled_toNat {index : UInt64} (hword : index.toNat < 4294967296) :
    (index * 4294967296).toNat = index.toNat * 4294967296 := by
  have hspan : (4294967296 : UInt64).toNat = 4294967296 := rfl
  rw [UInt64.toNat_mul, hspan]
  exact Nat.mod_eq_of_lt (by omega)

/-- What a number of shards is scaled up to leaves room for rounding. -/
theorem scaled_div_lt {index total : UInt64} (hword : index.toNat < 4294967296) :
    (index * 4294967296).toNat / total.toNat + 1 < 18446744073709551616 := by
  have hquot := Nat.div_le_self (index.toNat * 4294967296) total.toNat
  rw [scaled_toNat hword]
  omega

/-- A range starts with the first hash that is scaled down to its index. -/
theorem rangeStart_toNat_le_iff {index total : UInt64} (hindex : index.toNat < 4294967296)
    (hpos : 0 < total.toNat) (n : Nat) :
    (rangeStart index total).toNat ≤ n ↔ index.toNat * 4294967296 ≤ total.toNat * n := by
  unfold rangeStart
  rw [ceilDiv_toNat_le_iff hpos (scaled_div_lt hindex), scaled_toNat hindex]

namespace Assignment

variable (a : Assignment)

theorem total_pos : 0 < a.total.toNat :=
  Nat.zero_lt_of_lt (UInt32.lt_iff_toNat_lt.mp a.index_lt)

theorem total_word : a.total.toUInt64.toNat = a.total.toNat := UInt32.toNat_toUInt64 _

theorem total_word_pos : 0 < a.total.toUInt64.toNat := by
  rw [total_word]
  exact a.total_pos

theorem index_word : a.index.toUInt64.toNat = a.index.toNat := UInt32.toNat_toUInt64 _

theorem index_word_lt : a.index.toUInt64.toNat < 4294967296 := by
  rw [index_word]
  exact a.index.toNat_lt

/-- The index is below a word of 32 bits, so the next one is a word of 64. -/
theorem next_word : (a.index.toUInt64 + 1).toNat = a.index.toNat + 1 := by
  have hindex := a.index.toNat_lt
  rw [UInt64.toNat_add, index_word]
  exact Nat.mod_eq_of_lt (by show _ + 1 < _; omega)

/-- Behind an index there is at most the total, which is a word of 32 bits. -/
theorem next_word_lt : (a.index.toUInt64 + 1).toNat < 4294967296 := by
  rw [next_word]
  exact Nat.lt_of_le_of_lt (UInt32.lt_iff_toNat_lt.mp a.index_lt) a.total.toNat_lt

/-- The range of a shard starts with the first hash that is scaled down to its index. -/
theorem start_le_iff (n : Nat) : (rangeStart a.index.toUInt64 a.total.toUInt64).toNat ≤ n ↔
    a.index.toNat * 4294967296 ≤ a.total.toNat * n := by
  rw [rangeStart_toNat_le_iff a.index_word_lt a.total_word_pos, index_word, total_word]

/-- The range after it starts with the first hash that is scaled down to the next index. -/
theorem next_le_iff (n : Nat) : (rangeStart (a.index.toUInt64 + 1) a.total.toUInt64).toNat ≤ n ↔
    (a.index.toNat + 1) * 4294967296 ≤ a.total.toNat * n := by
  rw [rangeStart_toNat_le_iff a.next_word_lt a.total_word_pos, next_word, total_word]

/-- A range starts inside the hash space. -/
theorem start_lt : (rangeStart a.index.toUInt64 a.total.toUInt64).toNat < 4294967296 := by
  have hlt := UInt32.lt_iff_toNat_lt.mp a.index_lt
  have htotal := a.total.toNat_lt
  have hlast : (rangeStart a.index.toUInt64 a.total.toUInt64).toNat ≤ 4294967295 := by
    rw [start_le_iff]
    omega
  omega

/-- The range after it starts inside the hash space or right behind it. -/
theorem next_le : (rangeStart (a.index.toUInt64 + 1) a.total.toUInt64).toNat ≤ 4294967296 := by
  have hlt := UInt32.lt_iff_toNat_lt.mp a.index_lt
  rw [next_le_iff]
  omega

/-- A range is not empty, because there are not more shards than hashes. -/
theorem start_lt_next : (rangeStart a.index.toUInt64 a.total.toUInt64).toNat <
    (rangeStart (a.index.toUInt64 + 1) a.total.toUInt64).toNat := by
  have htotal := a.total.toNat_lt
  have hreach := (a.next_le_iff _).mp (Nat.le_refl _)
  generalize (rangeStart (a.index.toUInt64 + 1) a.total.toUInt64).toNat = next at hreach
  cases next with
  | zero =>
      rw [Nat.mul_zero] at hreach
      omega
  | succ before =>
      -- One hash less than what reaches the next index still reaches this one.
      rw [Nat.succ_mul, Nat.mul_succ a.total.toNat before] at hreach
      have hbefore : a.index.toNat * 4294967296 ≤ a.total.toNat * before := by
        generalize a.index.toNat * 4294967296 = first at hreach ⊢
        omega
      exact Nat.lt_succ_of_le ((a.start_le_iff before).mpr hbefore)

theorem hashRange_fst_toNat :
    a.hashRange.1.toNat = (rangeStart a.index.toUInt64 a.total.toUInt64).toNat := by
  rw [hashRange, UInt64.toNat_toUInt32]
  exact Nat.mod_eq_of_lt a.start_lt

theorem next_sub_one_toNat : (rangeStart (a.index.toUInt64 + 1) a.total.toUInt64 - 1).toNat =
    (rangeStart (a.index.toUInt64 + 1) a.total.toUInt64).toNat - 1 := by
  refine UInt64.toNat_sub_of_le _ _ (UInt64.le_iff_toNat_le.mpr ?_)
  exact Nat.one_le_of_lt a.start_lt_next

/-- A range ends right before the next one. -/
theorem hashRange_snd_toNat : a.hashRange.2.toNat + 1 =
    (rangeStart (a.index.toUInt64 + 1) a.total.toUInt64).toNat := by
  have hle := a.next_le
  have hsome := a.start_lt_next
  rw [hashRange, UInt64.toNat_toUInt32, next_sub_one_toNat, Nat.mod_eq_of_lt (by omega)]
  omega

/-- The range of a shard consists of the hashes that the shard owns. -/
theorem mem_hashRange_iff (hash : UInt32) :
    a.hashRange.1 ≤ hash ∧ hash ≤ a.hashRange.2 ↔ shardIndexFor hash a.total = a.index := by
  have hstart := a.start_le_iff hash.toNat
  have hnext := a.next_le_iff hash.toNat
  rw [← hashRange_fst_toNat] at hstart
  rw [← hashRange_snd_toNat] at hnext
  rw [UInt32.le_iff_toNat_le, UInt32.le_iff_toNat_le, ← UInt32.toNat_inj, shardIndexFor_toNat,
    Nat.div_eq_iff (by decide), Nat.mul_comm hash.toNat]
  omega

theorem contains_iff (hash : UInt32) :
    a.contains hash = true ↔ shardIndexFor hash a.total = a.index :=
  beq_iff_eq

end Assignment

section Members

variable {ids : List Int} {self : Int}

/-- A member has the shard of its position. -/
theorem dynamicAssignment_of_mem (hmem : self ∈ ids) (hlen : ids.length < 4294967296) :
    ∃ s, dynamicAssignment ids self = some s ∧ s.total.toNat = ids.length ∧
      s.index.toNat = ids.idxOf self := by
  have hpos : ids.idxOf self < ids.length := List.idxOf_lt_length_iff.mpr hmem
  have hfind : ids.findIdx? (· == self) = some (ids.idxOf self) :=
    List.findIdx?_eq_some_iff_findIdx_eq.mpr ⟨hpos, rfl⟩
  -- Both numbers fit into a word, so comparing the words compares the numbers.
  have htotal : (UInt32.ofNat ids.length).toNat = ids.length :=
    UInt32.toNat_ofNat_of_lt' hlen
  have hindex : (UInt32.ofNat (ids.idxOf self)).toNat = ids.idxOf self :=
    UInt32.toNat_ofNat_of_lt' (Nat.lt_trans hpos hlen)
  have hlt : UInt32.ofNat (ids.idxOf self) < UInt32.ofNat ids.length := by
    rw [UInt32.lt_iff_toNat_lt, htotal, hindex]
    exact hpos
  refine ⟨⟨_, _, hlt⟩, ?_, htotal, hindex⟩
  rw [dynamicAssignment, hfind]
  dsimp only
  rw [if_pos hlen, Assignment.ofNumbers?, dif_pos hlt]

/-- Among ascending ids the position of one is the number of those below it. -/
theorem idxOf_eq_countP (hasc : ids.Pairwise (· < ·)) (hmem : self ∈ ids) :
    ids.idxOf self = ids.countP (· < self) := by
  induction ids with
  | nil => exact absurd hmem List.not_mem_nil
  | cons id ids ih =>
      rcases List.pairwise_cons.mp hasc with ⟨hbelow, hasc'⟩
      by_cases heq : id = self
      · -- The first one is below all the others, so nobody is below it.
        subst heq
        have hnone : ids.countP (· < id) = 0 := by
          refine List.countP_eq_zero.mpr (fun id' hid' hlt => ?_)
          have habove := hbelow id' hid'
          have hlt' := of_decide_eq_true hlt
          omega
        rw [List.idxOf_cons_self, List.countP_cons_of_neg (by simp), hnone]
      · have hmem' : self ∈ ids := (List.mem_cons.mp hmem).resolve_left (Ne.symm heq)
        rw [List.idxOf_cons_ne ids heq, ih hasc' hmem', List.countP_cons_of_pos]
        exact decide_eq_true (hbelow self hmem')

/-- Every hash belongs to the shard of exactly one member. -/
theorem exists_owner (hnodup : ids.Nodup) (hne : ids ≠ []) (hlen : ids.length < 4294967296)
    (hash : UInt32) : ∃ owner ∈ ids, ∀ id ∈ ids,
      (∃ s, dynamicAssignment ids id = some s ∧ s.contains hash = true) ↔ id = owner := by
  have hpos : 0 < ids.length := List.length_pos_iff.mpr hne
  have htotal : (UInt32.ofNat ids.length).toNat = ids.length := UInt32.toNat_ofNat_of_lt' hlen
  have hlt : (shardIndexFor hash (UInt32.ofNat ids.length)).toNat < ids.length := by
    have h : 0 < (UInt32.ofNat ids.length).toNat := by
      rw [htotal]
      exact hpos
    have hlt := shardIndexFor_lt hash h
    rw [htotal] at hlt
    exact hlt
  refine ⟨_, List.getElem_mem hlt, fun id hid => ?_⟩
  -- The owner is the member whose position is the hash scaled down to the total.
  rcases dynamicAssignment_of_mem hid hlen with ⟨s, hs, hstotal, hsindex⟩
  have htotal' : s.total = UInt32.ofNat ids.length :=
    UInt32.toNat_inj.mp (hstotal.trans htotal.symm)
  constructor
  · rintro ⟨s', hs', hcontains⟩
    rw [hs, Option.some.injEq] at hs'
    subst hs'
    have hindex := congrArg UInt32.toNat (beq_iff_eq.mp hcontains)
    rw [htotal', hsindex] at hindex
    simp only [hindex]
    exact (List.getElem_idxOf (List.idxOf_lt_length_iff.mpr hid)).symm
  · rintro rfl
    refine ⟨s, hs, beq_iff_eq.mpr (UInt32.toNat_inj.mp ?_)⟩
    rw [hnodup.idxOf_getElem] at hsindex
    rw [hsindex, htotal']

end Members

end OutboxCluster
