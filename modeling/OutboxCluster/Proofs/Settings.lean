import OutboxCluster.Proofs.Fallible
import OutboxCluster.Settings

/-!
# Settings that Pass the Check

What is known of settings that have been checked. The check goes through the
settings in a fixed order and stops at the first rule that is broken, so settings
that pass it have kept every rule.

## Theorems

* `checkBounded_eq_ok_iff`, `checkInterval_eq_ok_iff`, `checkCount_eq_ok_iff`: Intervals
  and counts that pass.
* `tripled_toNat`: The product of three pulses is exact.
* `Settings.passed_of_validate`: What checked settings come to, and which rules they have kept.
* `Settings.pulseInterval_of_validate`, `Settings.pulseExpiration_of_validate`: A lease
  outlasts three pulses, and is no longer than a week.
* `Settings.retryWait_of_validate`, `Settings.isExhausted_of_validate`: A batch that has
  failed rests, and one that has not is not given up.
* `Settings.positive_of_validate`: What settings that pass count is never zero.
* `Settings.bounded_iff`: How often a batch may fail.
* `Settings.assignments_of_validate`: The shards of a node are distinct.
-/

namespace OutboxCluster

theorem checkBounded_eq_ok_iff {name : String} {value : UInt64} :
    checkBounded name value = .ok () ↔ value ≤ maxIntervalMs := by
  unfold checkBounded
  by_cases hlong : maxIntervalMs < value
  · rw [if_pos hlong]
    simp only [reduceCtorEq, false_iff]
    exact UInt64.not_le.mpr hlong
  · rw [if_neg hlong]
    exact ⟨fun _ => UInt64.not_lt.mp hlong, fun _ => rfl⟩

theorem checkInterval_eq_ok_iff {name : String} {value : UInt64} :
    checkInterval name value = .ok () ↔ value ≠ 0 ∧ value ≤ maxIntervalMs := by
  unfold checkInterval
  by_cases hzero : value = 0
  · rw [if_pos hzero]
    simp only [reduceCtorEq, false_iff, not_and]
    exact fun h => absurd hzero h
  · rw [if_neg hzero, checkBounded_eq_ok_iff]
    exact ⟨fun h => ⟨hzero, h⟩, fun h => h.2⟩

theorem checkCount_eq_ok_iff {name : String} {value : UInt32} :
    checkCount name value = .ok () ↔ value ≠ 0 := by
  unfold checkCount
  by_cases hzero : value = 0
  · rw [if_pos hzero]
    exact iff_of_false (fun h => nomatch h) (not_not_intro hzero)
  · rw [if_neg hzero]
    exact iff_of_true rfl hzero

/-- Three times an interval of a week at most is far below the largest word. -/
theorem tripled_toNat {value : UInt64} (h : value ≤ maxIntervalMs) :
    (tripled value).toNat = 3 * value.toNat := by
  have hmax : maxIntervalMs.toNat = 604800000 := rfl
  rw [UInt64.le_iff_toNat_le] at h
  unfold tripled
  rw [UInt64.toNat_ofNat_of_lt' (by unfold UInt64.size; omega)]
  omega

/-- What settings that pass come to, and the rules that they have kept. -/
structure Settings.Passed (s : Settings) (v : Validated) : Prop where
  sharding : s.shards.validate = .ok v.sharding
  pollingInterval : v.pollingInterval = s.processors.pollingInterval.toNat
  pulseInterval : v.pulseInterval = s.processors.pulseInterval.toNat
  pulseExpiration : v.pulseExpiration = s.processors.pulseExpiration.toNat
  batchSize : v.batchSize = s.processors.batchSize.toNat
  transactionTimeout : v.transactionTimeout = s.processors.transactionTimeout.map UInt64.toNat
  retryDelay : v.retryDelay = s.processors.retryDelay.toNat
  maxConsecutiveBatches : v.maxConsecutiveBatches = s.processors.maxConsecutiveBatches.toNat
  retryPolicy : s.processors.maxRetryAttempts = none ∧ v.retryPolicy = .unbounded ∨
    ∃ m, s.processors.maxRetryAttempts = some m ∧ m ≠ 0 ∧ v.retryPolicy = .bounded m.toNat
  polling : s.processors.pollingInterval ≠ 0
  pulse : s.processors.pulseInterval ≠ 0 ∧ s.processors.pulseInterval ≤ maxIntervalMs
  expiration : s.processors.pulseExpiration ≠ 0 ∧ s.processors.pulseExpiration ≤ maxIntervalMs
  proportions : s.processors.checkProportions = .ok ()
  batch : s.processors.batchSize ≠ 0
  batches : s.processors.maxConsecutiveBatches ≠ 0
  timeout : ∀ timeout, s.processors.transactionTimeout = some timeout → timeout ≠ 0

theorem Settings.passed_of_validate {s : Settings} {v : Validated} (h : s.validate = .ok v) :
    s.Passed v := by
  simp only [validate, bind_eq_ok_iff] at h
  rcases h with ⟨sharding, hsharding, _, hpolling, _, hpulse, _, hexpiration, _, _, _,
    hproportions, _, hbatch, _, hbatches, hv⟩
  rw [checkInterval_eq_ok_iff] at hpolling hpulse hexpiration
  rw [checkCount_eq_ok_iff] at hbatch hbatches
  -- The two settings that may be left out are checked last.
  have hlast : ∃ policy, v = {
        sharding
        pollingInterval := s.processors.pollingInterval.toNat
        pulseInterval := s.processors.pulseInterval.toNat
        pulseExpiration := s.processors.pulseExpiration.toNat
        batchSize := s.processors.batchSize.toNat
        transactionTimeout := s.processors.transactionTimeout.map UInt64.toNat
        retryDelay := s.processors.retryDelay.toNat
        maxConsecutiveBatches := s.processors.maxConsecutiveBatches.toNat
        retryPolicy := policy } ∧
      (∀ timeout, s.processors.transactionTimeout = some timeout → timeout ≠ 0) ∧
      (s.processors.maxRetryAttempts = none ∧ policy = .unbounded ∨
        ∃ m, s.processors.maxRetryAttempts = some m ∧ m ≠ 0 ∧ policy = .bounded m.toNat) := by
    cases htimeout : s.processors.transactionTimeout <;>
      cases hattempts : s.processors.maxRetryAttempts <;>
      simp only [htimeout, hattempts, bind_eq_ok_iff, pure, Except.pure, Except.ok.injEq] at hv
    · exact ⟨_, hv.symm, fun _ h => (nomatch h), Or.inl ⟨rfl, rfl⟩⟩
    · rcases hv with ⟨_, hcount, rfl⟩
      have hm := checkCount_eq_ok_iff.mp hcount
      exact ⟨_, rfl, fun _ h => (nomatch h), Or.inr ⟨_, rfl, hm, rfl⟩⟩
    · rcases hv with ⟨_, hpositive, rfl⟩
      have htime := (checkInterval_eq_ok_iff.mp hpositive).1
      exact ⟨_, rfl, fun _ h => Option.some.inj h ▸ htime, Or.inl ⟨rfl, rfl⟩⟩
    · rcases hv with ⟨_, hpositive, _, hcount, rfl⟩
      have htime := (checkInterval_eq_ok_iff.mp hpositive).1
      have hm := checkCount_eq_ok_iff.mp hcount
      exact ⟨_, rfl, fun _ h => Option.some.inj h ▸ htime, Or.inr ⟨_, rfl, hm, rfl⟩⟩
  rcases hlast with ⟨policy, rfl, htimeout, hpolicy⟩
  exact ⟨hsharding, rfl, rfl, rfl, rfl, rfl, rfl, rfl, hpolicy, hpolling.1, hpulse, hexpiration,
    hproportions, hbatch, hbatches, htimeout⟩

/-- A word that is not zero stands for a positive number. -/
theorem toNat_pos_of_ne_zero {value : UInt64} (h : value ≠ 0) : 0 < value.toNat :=
  Nat.pos_of_ne_zero fun hzero => h (UInt64.toNat_inj.mp hzero)

section Passed

variable {s : Settings} {v : Validated}

/-- A lease lasts at least a millisecond and at most a week. -/
theorem Settings.pulseExpiration_of_validate (h : s.validate = .ok v) :
    1 ≤ v.pulseExpiration ∧ v.pulseExpiration ≤ 604800000 := by
  have hpassed := passed_of_validate h
  rcases hpassed.expiration with ⟨hne, hle⟩
  rw [hpassed.pulseExpiration]
  exact ⟨toNat_pos_of_ne_zero hne, UInt64.le_iff_toNat_le.mp hle⟩

/-- A lease outlasts three pulses. -/
theorem Settings.pulseInterval_of_validate (h : s.validate = .ok v) :
    1 ≤ v.pulseInterval ∧ 3 * v.pulseInterval ≤ v.pulseExpiration := by
  have hpassed := passed_of_validate h
  rcases hpassed.pulse with ⟨hne, hle⟩
  have hproportions := hpassed.proportions
  unfold ProcessorSettings.checkProportions at hproportions
  split at hproportions
  · exact nomatch hproportions
  · split at hproportions
    · exact nomatch hproportions
    · rename_i htripled
      rw [UInt64.not_lt, UInt64.le_iff_toNat_le, tripled_toNat hle] at htripled
      rw [hpassed.pulseInterval, hpassed.pulseExpiration]
      exact ⟨toNat_pos_of_ne_zero hne, htripled⟩

/-- A batch that has failed rests for a while, however it is configured. -/
theorem Settings.retryWait_of_validate (h : s.validate = .ok v) : 0 < v.retryWait := by
  have hpassed := passed_of_validate h
  unfold Validated.retryWait
  by_cases hdelay : v.retryDelay = 0
  · rw [if_pos hdelay, hpassed.pollingInterval]
    exact toNat_pos_of_ne_zero hpassed.polling
  · rw [if_neg hdelay]
    exact Nat.pos_of_ne_zero hdelay

/-- A batch that has not failed is not given up. -/
theorem Settings.isExhausted_of_validate (h : s.validate = .ok v) :
    v.retryPolicy.isExhausted 0 = false := by
  rcases (passed_of_validate h).retryPolicy with ⟨_, hpolicy⟩ | ⟨m, _, hne, hpolicy⟩
  · rw [hpolicy]
    rfl
  · rw [hpolicy, RetryPolicy.isExhausted, decide_eq_false_iff_not]
    exact fun hle => hne (UInt32.toNat_inj.mp (Nat.le_zero.mp hle))

/-- What settings that pass count, and how long they wait, is never zero. -/
structure Validated.Positive (v : Validated) : Prop where
  pollingInterval : 0 < v.pollingInterval
  pulseInterval : 0 < v.pulseInterval
  batchSize : 0 < v.batchSize
  maxConsecutiveBatches : 0 < v.maxConsecutiveBatches
  retryWait : 0 < v.retryWait
  transactionTimeout : ∀ timeout, v.transactionTimeout = some timeout → 0 < timeout

theorem Settings.positive_of_validate (h : s.validate = .ok v) : v.Positive := by
  have hpassed := passed_of_validate h
  have hcount : ∀ value : UInt32, value ≠ 0 → 0 < value.toNat :=
    fun value hne => Nat.pos_of_ne_zero fun hzero => hne (UInt32.toNat_inj.mp hzero)
  refine ⟨?_, (pulseInterval_of_validate h).1, ?_, ?_, retryWait_of_validate h,
    fun timeout htimeout => ?_⟩
  · rw [hpassed.pollingInterval]
    exact toNat_pos_of_ne_zero hpassed.polling
  · rw [hpassed.batchSize]
    exact hcount _ hpassed.batch
  · rw [hpassed.maxConsecutiveBatches]
    exact hcount _ hpassed.batches
  · rw [hpassed.transactionTimeout] at htimeout
    rcases Option.map_eq_some_iff.mp htimeout with ⟨word, hword, rfl⟩
    exact toNat_pos_of_ne_zero (hpassed.timeout word hword)

end Passed

/-- Failures are bounded by what is configured. -/
theorem Settings.bounded_iff {v : Validated} (s : Settings) (h : s.validate = .ok v) {k : Nat} :
    s.processors.maxRetryAttempts.map UInt32.toNat = some k ↔ v.retryPolicy = .bounded k := by
  rcases (passed_of_validate h).retryPolicy with ⟨hnone, hpolicy⟩ | ⟨m, hsome, _, hpolicy⟩
  · rw [hnone, hpolicy]
    exact iff_of_false (fun h => nomatch h) (fun h => nomatch h)
  · rw [hsome, hpolicy, Option.map_some, Option.some.injEq, RetryPolicy.bounded.injEq]

/-- A batch is given up at the last of the failures that are allowed. -/
theorem RetryPolicy.eq_bounded {p : RetryPolicy} {k : Nat} (hbefore : p.isExhausted k = false)
    (hafter : p.isExhausted (k + 1) = true) : p = .bounded (k + 1) := by
  cases p with
  | unbounded => exact nomatch hafter
  | bounded maxAttempts =>
      have hlt : ¬ maxAttempts ≤ k := of_decide_eq_false hbefore
      have hle : maxAttempts ≤ k + 1 := of_decide_eq_true hafter
      rw [Nat.le_antisymm hle (Nat.lt_of_not_le hlt)]

section Shards

variable {total : Int64} {x : UInt32} {xs : List UInt32}

theorem mem_insertDistinct_iff {y : UInt32} : y ∈ insertDistinct x xs ↔ y = x ∨ y ∈ xs := by
  induction xs with
  | nil => simp [insertDistinct]
  | cons z zs ih =>
      unfold insertDistinct
      by_cases hlt : x < z
      · rw [if_pos hlt, List.mem_cons]
      · rw [if_neg hlt]
        by_cases heq : x = z
        · -- The number is there already.
          simp [heq]
        · rw [if_neg heq, List.mem_cons, ih, List.mem_cons]
          exact or_left_comm

theorem insertDistinct_ascending (h : xs.Pairwise (· < ·)) :
    (insertDistinct x xs).Pairwise (· < ·) := by
  induction xs with
  | nil => exact List.pairwise_singleton _ _
  | cons y ys ih =>
      rcases List.pairwise_cons.mp h with ⟨hy, hys⟩
      unfold insertDistinct
      split
      · rename_i hlt
        refine List.pairwise_cons.mpr ⟨fun z hz => ?_, h⟩
        rcases List.mem_cons.mp hz with rfl | hz
        · exact hlt
        · exact UInt32.lt_trans hlt (hy z hz)
      · split
        · exact h
        · rename_i hnlt hne
          refine List.pairwise_cons.mpr ⟨fun z hz => ?_, ih hys⟩
          rcases mem_insertDistinct_iff.mp hz with rfl | hz
          · exact UInt32.lt_of_le_of_ne (UInt32.not_lt.mp hnlt) (fun heq => hne heq.symm)
          · exact hy z hz

/-- Configured indices are made distinct. -/
theorem distinctIndices_ascending {indices : List Int64}
    (h : distinctIndices total indices = .ok xs) :
    xs.Pairwise (· < ·) := by
  induction indices generalizing xs with
  | nil =>
      rw [← Except.ok.inj h]
      exact List.Pairwise.nil
  | cons index rest ih =>
      unfold distinctIndices at h
      split at h
      · exact nomatch h
      · cases hrest : distinctIndices total rest with
        | error e =>
            rw [hrest] at h
            exact nomatch h
        | ok ys =>
            rw [hrest] at h
            rw [← Except.ok.inj h]
            exact insertDistinct_ascending (ih hrest)

/-- The distinct indices are the configured ones, cut down to words. -/
theorem mem_distinctIndices_iff {indices : List Int64}
    (h : distinctIndices total indices = .ok xs) :
    x ∈ xs ↔ ∃ index ∈ indices, UInt32.ofNat index.toInt.toNat = x := by
  induction indices generalizing xs with
  | nil => simp [← Except.ok.inj h]
  | cons index rest ih =>
      unfold distinctIndices at h
      split at h
      · exact nomatch h
      · cases hrest : distinctIndices total rest with
        | error e =>
            rw [hrest] at h
            exact nomatch h
        | ok ys =>
            rw [hrest] at h
            rw [← Except.ok.inj h, mem_insertDistinct_iff, ih hrest]
            simp only [List.mem_cons, exists_eq_or_imp, eq_comm (a := x)]

/-- Static settings that pass name a total and some indices below it. -/
structure ShardSettings.Static (s : ShardSettings) (total : UInt32) (assigned : List UInt32)
    (count : Int64) (configured : List Int64) : Prop where
  isStatic : s.isStatic = true
  count_eq : s.totalCount = some count
  bounds : ¬ (count ≤ 0 ∨ 4294967295 < count)
  assigned_eq : s.assigned = some configured
  total_eq : total = UInt32.ofNat count.toInt.toNat
  distinct : distinctIndices count configured = .ok assigned

/-- Settings of shards pass in one of two ways. -/
theorem ShardSettings.cases_of_validate {s : ShardSettings} {sharding : Sharding}
    (h : s.validate = .ok sharding) : s.isStatic = false ∧ sharding = .dynamic ∨
      ∃ total assigned count configured, s.Static total assigned count configured ∧
        sharding = .static total assigned := by
  unfold validate at h
  cases hstatic : s.isStatic with
  | false =>
      rw [hstatic] at h
      exact Or.inl ⟨rfl, (Except.ok.inj h).symm⟩
  | true =>
      rw [hstatic] at h
      cases hcount : s.totalCount with
      | none => simp [hcount] at h
      | some count =>
          by_cases hbounds : count ≤ 0 ∨ 4294967295 < count
          · simp [hcount, hbounds] at h
          · match hassigned : s.assigned with
            | none | some [] => simp [hcount, hbounds, hassigned] at h
            | some (index :: rest) =>
                simp only [hcount, hassigned, if_neg hbounds] at h
                rcases bind_eq_ok_iff.mp h with ⟨indices, hindices, heq⟩
                exact Or.inr ⟨_, indices, count, index :: rest,
                  ⟨hstatic, hcount, hbounds, hassigned, rfl, hindices⟩, (Except.ok.inj heq).symm⟩

/-- The shards of a node differ in their indices. -/
theorem Settings.assignments_of_validate {s : Settings} {v : Validated}
    (h : s.validate = .ok v) : (v.assignments.map (Option.map (·.index))).Nodup := by
  unfold Validated.assignments
  rcases ShardSettings.cases_of_validate (passed_of_validate h).sharding with
    ⟨_, hshards⟩ | ⟨total, assigned, _, _, hstatic, hshards⟩
  · rw [hshards]
    exact List.pairwise_singleton _ _
  · rw [hshards]
    have hascending := distinctIndices_ascending hstatic.distinct
    dsimp only
    rw [List.map_map, List.map_filterMap]
    -- To leave out those that do not fit makes no two of them equal.
    refine (hascending.imp fun hlt => (UInt32.ne_of_lt hlt)).filterMap _ ?_
    intro i j hne a ha b hb heq
    rcases Option.map_eq_some_iff.mp ha with ⟨_, hi, rfl⟩
    rcases Option.map_eq_some_iff.mp hb with ⟨_, hj, rfl⟩
    rw [← (Assignment.ofNumbers?_eq_some.mp hi).2,
      ← (Assignment.ofNumbers?_eq_some.mp hj).2] at hne
    exact hne (Option.some.inj heq)

end Shards

end OutboxCluster
