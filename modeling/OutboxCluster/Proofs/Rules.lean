import OutboxCluster.Proofs.Settings

/-!
# The Rules of Settings

Settings are checked word by word: intervals are compared as words of 64 bits, the product of
three intervals stops at the largest word, and the indices of shards are cut down to words
of 32 bits. The rules themselves are about numbers. Here they are written down as a list, in
the order of the check, each with the error that a breach of it is reported with, and the
check is shown to go through this list.

`Enforces` relates a check to its rules and follows the program text. Two checks one after
the other enforce the rules of the first and then those of the second (`Enforces.bind`), and
while the second one runs the rules of the first are known to be kept. That is what makes the
product harmless: when it is taken, the interval is known to be a week at most.

## Main definitions

* `Rule`: What is asked of settings, and the error if it is not met.
* `FirstBreach`: The error of the first rule that is broken.
* `Enforces`: A check passes if all rules are kept, and reports the first breach otherwise.
* `Settings.rules`: The rules in the order of the check.
* `Settings.Consistent`: What settings that pass look like.

## Theorems

* `Settings.validate_enforces`: The check enforces the rules.
* `Settings.kept_iff_consistent`: Settings that keep all rules are the consistent ones.
* `ShardSettings.owned_of_validate`: The shards that a node is configured to own.
* `consistent_settings_pass`: Which settings pass, with which shards, and how others fail.
-/

namespace OutboxCluster

/-- What is asked of settings, and the error that a breach is reported with. -/
structure Rule where
  Kept : Prop
  error : ConfigError

/-- The error is that of the first rule that is broken. -/
def FirstBreach (rules : List Rule) (e : ConfigError) : Prop :=
  ∃ before broken after, rules = before ++ broken :: after ∧ (∀ r ∈ before, r.Kept) ∧
    ¬ broken.Kept ∧ broken.error = e

/-- A check passes only if all rules are kept, and reports the first breach otherwise. -/
structure Enforces {α : Type} (check : Except ConfigError α) (rules : List Rule) : Prop where
  kept : ∀ a, check = .ok a → ∀ r ∈ rules, r.Kept
  breach : ∀ e, check = .error e → FirstBreach rules e

/-- The rules of a setting that may be left out. -/
def optionalRules {α : Type} (rulesOf : α → List Rule) : Option α → List Rule
  | none => []
  | some value => rulesOf value

namespace FirstBreach

variable {rules rules' : List Rule} {e : ConfigError}

theorem append_right (h : FirstBreach rules e) (rules' : List Rule) :
    FirstBreach (rules ++ rules') e := by
  rcases h with ⟨before, broken, after, rfl, hbefore, hbroken, herror⟩
  refine ⟨before, broken, after ++ rules', ?_, hbefore, hbroken, herror⟩
  rw [List.append_assoc, List.cons_append]

theorem append_left (h : FirstBreach rules' e) (hkept : ∀ r ∈ rules, r.Kept) :
    FirstBreach (rules ++ rules') e := by
  rcases h with ⟨before, broken, after, rfl, hbefore, hbroken, herror⟩
  refine ⟨rules ++ before, broken, after, ?_, fun r hr => ?_, hbroken, herror⟩
  · rw [List.append_assoc]
  · exact (List.mem_append.mp hr).elim (hkept r) (hbefore r)

/-- There is only one first breach. -/
theorem unique {e' : ConfigError} (h : FirstBreach rules e) (h' : FirstBreach rules e') :
    e = e' := by
  rcases h with ⟨before, broken, after, rfl, hbefore, hbroken, rfl⟩
  rcases h' with ⟨before', broken', after', heq, hbefore', hbroken', rfl⟩
  -- A rule that comes before a broken one is kept, so neither can come before the other.
  rcases List.append_eq_append_iff.mp heq with ⟨between, rfl, hrest⟩ | ⟨between, rfl, hrest⟩
  · cases between with
    | nil => rw [(List.cons.inj hrest).1]
    | cons r rest =>
        rw [(List.cons.inj hrest).1] at hbroken
        exact absurd (hbefore' r (List.mem_append_right _ List.mem_cons_self)) hbroken
  · cases between with
    | nil => rw [(List.cons.inj hrest).1]
    | cons r rest =>
        rw [(List.cons.inj hrest).1] at hbroken'
        exact absurd (hbefore r (List.mem_append_right _ List.mem_cons_self)) hbroken'

theorem not_kept (h : FirstBreach rules e) : ¬ ∀ r ∈ rules, r.Kept := by
  rcases h with ⟨before, broken, after, rfl, _, hbroken, _⟩
  intro hkept
  exact hbroken (hkept broken (List.mem_append_right before List.mem_cons_self))

end FirstBreach

namespace Enforces

variable {α β : Type} {check : Except ConfigError α} {rules rules' : List Rule}

theorem pass (a : α) : Enforces (.ok a) [] where
  kept := fun _ _ _ hr => absurd hr List.not_mem_nil
  breach := fun _ h => nomatch h

/-- One check after another enforces the rules of both, in this order. -/
theorem bind {next : α → Except ConfigError β} (h : Enforces check rules)
    (hnext : ∀ a, check = .ok a → Enforces (next a) rules') :
    Enforces (check >>= next) (rules ++ rules') := by
  cases hcheck : check with
  | error e =>
      refine ⟨fun _ hok => (nomatch hok), fun e' herror => ?_⟩
      rw [← Except.error.inj herror]
      exact (h.breach e hcheck).append_right rules'
  | ok a =>
      have hkept := h.kept a hcheck
      refine ⟨fun b hok r hr => ?_, fun e herror => ?_⟩
      · exact (List.mem_append.mp hr).elim (hkept r) ((hnext a hcheck).kept b hok r)
      · exact ((hnext a hcheck).breach e herror).append_left hkept

variable {kept broken : Prop} {e : ConfigError}

theorem fail (hbroken : ¬ kept) :
    Enforces (.error e : Except ConfigError α) (⟨kept, e⟩ :: rules) where
  kept := fun _ h => nomatch h
  breach := by
    intro e' herror
    rw [← Except.error.inj herror]
    exact ⟨[], ⟨kept, e⟩, rules, rfl, fun _ hr => absurd hr List.not_mem_nil, hbroken, rfl⟩

theorem cons (hkept : kept) (h : Enforces check rules) : Enforces check (⟨kept, e⟩ :: rules) where
  kept := by
    intro a hok r hr
    rcases List.mem_cons.mp hr with rfl | hr
    · exact hkept
    · exact h.kept a hok r hr
  breach := by
    intro e' herror
    have hfirst : ∀ r ∈ [(⟨kept, e⟩ : Rule)], r.Kept := by
      intro r hr
      rw [List.mem_singleton.mp hr]
      exact hkept
    exact (h.breach e' herror).append_left hfirst

/-- A check that fails at once if a rule is broken enforces this rule first. -/
theorem guard [Decidable broken] (hbroken : broken ↔ ¬ kept) (h : kept → Enforces check rules) :
    Enforces (if broken then .error e else check) (⟨kept, e⟩ :: rules) := by
  by_cases hb : broken
  · rw [if_pos hb]
    exact fail (hbroken.mp hb)
  · have hkept : kept := by
      by_contra hnot
      exact hb (hbroken.mpr hnot)
    rw [if_neg hb]
    exact cons hkept (h hkept)

/-- What comes out of a check does not matter for the rules. -/
theorem map {f : α → β} (h : Enforces check rules) : Enforces (check.map f) rules := by
  cases hcheck : check with
  | error e =>
      refine ⟨fun _ hok => (nomatch hok), fun e' herror => ?_⟩
      rw [← Except.error.inj herror]
      exact h.breach e hcheck
  | ok a => exact ⟨fun _ _ => h.kept a hcheck, fun _ herror => nomatch herror⟩

/-- Settings pass exactly if they keep all rules. -/
theorem exists_ok_iff (h : Enforces check rules) : (∃ a, check = .ok a) ↔ ∀ r ∈ rules, r.Kept := by
  constructor
  · rintro ⟨a, hok⟩
    exact h.kept a hok
  · intro hkept
    cases hcheck : check with
    | ok a => exact ⟨a, rfl⟩
    | error e => exact absurd hkept (h.breach e hcheck).not_kept

/-- Settings are refused exactly with the error of the first breach. -/
theorem eq_error_iff (h : Enforces check rules) : check = .error e ↔ FirstBreach rules e := by
  constructor
  · exact h.breach e
  · intro hfirst
    cases hcheck : check with
    | ok a => exact absurd (h.kept a hcheck) hfirst.not_kept
    | error e' => rw [(h.breach e' hcheck).unique hfirst]

end Enforces

section Fields

variable (name : String)

/-- An interval is a week at most. -/
def boundRules (value : UInt64) : List Rule :=
  [⟨value.toNat ≤ maxIntervalMs.toNat,
    .intervalTooLong name value.toNat maxIntervalMs.toNat⟩]

/-- An interval is not zero, and a week at most. -/
def intervalRules (value : UInt64) : List Rule :=
  ⟨1 ≤ value.toNat, .invalidInterval name value.toNat⟩ :: boundRules name value

/-- A count is not zero. -/
def countRules (value : UInt32) : List Rule :=
  [⟨0 < value.toNat, .invalidCount name value.toNat⟩]

theorem checkBounded_enforces (value : UInt64) :
    Enforces (checkBounded name value) (boundRules name value) :=
  Enforces.guard (by rw [UInt64.lt_iff_toNat_lt, Nat.not_le]) fun _ => Enforces.pass ()

theorem checkInterval_enforces (value : UInt64) :
    Enforces (checkInterval name value) (intervalRules name value) := by
  refine Enforces.guard ?_ fun _ => checkBounded_enforces name value
  have hzero : (0 : UInt64).toNat = 0 := rfl
  rw [← UInt64.toNat_inj, hzero]
  omega

theorem checkCount_enforces (value : UInt32) :
    Enforces (checkCount name value) (countRules name value) := by
  refine Enforces.guard ?_ fun _ => Enforces.pass ()
  have hzero : (0 : UInt32).toNat = 0 := rfl
  rw [← UInt32.toNat_inj, hzero]
  omega

end Fields

namespace ShardSettings

variable (s : ShardSettings)

/-- An index of a shard is below the total. -/
def indexRule (total : Int) (index : Int64) : Rule :=
  ⟨0 ≤ index.toInt ∧ index.toInt < total, .invalidShardIndex index.toInt total⟩

/-- Fixed shards need a total that is a word of 32 bits, and indices below it. Shards that the
    members share out need nothing. -/
def rules : List Rule :=
  if s.isStatic then
    let total := (s.totalCount.map Int64.toInt).getD 0
    let assigned := s.assigned.getD []
    ⟨s.totalCount.isSome = true, .missingStaticProperty "total_count"⟩ ::
    ⟨1 ≤ total ∧ total ≤ 4294967295, .invalidTotalShardCount total⟩ ::
    ⟨assigned ≠ [], .missingStaticProperty "assigned"⟩ ::
    assigned.map (indexRule total)
  else []

theorem distinctIndices_enforces (total : Int64) (indices : List Int64) :
    Enforces (distinctIndices total indices) (indices.map (indexRule total.toInt)) := by
  induction indices with
  | nil => exact Enforces.pass []
  | cons index rest ih =>
      refine Enforces.guard ?_ fun _ => ih.map
      have hzero : (0 : Int64).toInt = 0 := rfl
      rw [Int64.lt_iff_toInt_lt, Int64.le_iff_toInt_le, hzero]
      omega

theorem validate_enforces : Enforces s.validate s.rules := by
  unfold validate rules
  cases s.isStatic with
  | false => exact Enforces.pass Sharding.dynamic
  | true =>
      cases s.totalCount with
      | none => exact Enforces.fail (fun h => nomatch h)
      | some total =>
          have hzero : (0 : Int64).toInt = 0 := rfl
          have hlargest : (4294967295 : Int64).toInt = 4294967295 := rfl
          -- The total is there, so the next rule is the one on its bounds.
          refine Enforces.cons rfl (Enforces.guard ?_ fun _ => ?_)
          · rw [Int64.le_iff_toInt_le, Int64.lt_iff_toInt_lt, hzero, hlargest]
            simp only [Option.map_some, Option.getD_some]
            omega
          · cases s.assigned with
            | none => exact Enforces.fail fun h => h rfl
            | some assigned =>
                cases assigned with
                | nil => exact Enforces.fail fun h => h rfl
                | cons index rest =>
                    refine Enforces.cons (List.cons_ne_nil index rest) ?_
                    have h := (distinctIndices_enforces total (index :: rest)).bind fun indices _ =>
                      Enforces.pass (Sharding.static (UInt32.ofNat total.toInt.toNat) indices)
                    rw [List.append_nil] at h
                    exact h

end ShardSettings

/-- The lower bounds that the intervals set each other. -/
def ProcessorSettings.proportionRules (p : ProcessorSettings) : List Rule :=
  [⟨p.pollingInterval.toNat ≤ p.pulseInterval.toNat,
      .invalidPulseInterval p.pulseInterval.toNat p.pollingInterval.toNat⟩,
    ⟨3 * p.pulseInterval.toNat ≤ p.pulseExpiration.toNat,
      .invalidPulseExpiration p.pulseExpiration.toNat p.pulseInterval.toNat⟩]

theorem ProcessorSettings.checkProportions_enforces (p : ProcessorSettings)
    (hweek : p.pulseInterval ≤ maxIntervalMs) :
    Enforces p.checkProportions p.proportionRules := by
  refine Enforces.guard (by rw [UInt64.lt_iff_toNat_lt, Nat.not_le]) fun _ => ?_
  refine Enforces.guard ?_ fun _ => Enforces.pass ()
  rw [UInt64.lt_iff_toNat_lt, tripled_toNat hweek, Nat.not_le]

namespace Settings

variable (s : Settings)

/-- The rules in the order of the check. -/
def rules : List Rule :=
  let p := s.processors
  [s.shards.rules,
    intervalRules "polling_interval" p.pollingInterval,
    intervalRules "pulse_interval" p.pulseInterval,
    intervalRules "pulse_expiration" p.pulseExpiration,
    boundRules "retry_delay" p.retryDelay,
    p.proportionRules,
    countRules "batch_size" p.batchSize,
    countRules "max_consecutive_batches" p.maxConsecutiveBatches,
    optionalRules (intervalRules "transaction_timeout") p.transactionTimeout,
    optionalRules (countRules "max_retry_attempts") p.maxRetryAttempts].flatten

/-- The check goes through the rules one after another. -/
theorem validate_enforces : Enforces s.validate s.rules := by
  simp only [validate, rules, List.flatten_cons, List.flatten_nil]
  refine s.shards.validate_enforces.bind fun sharding _ => ?_
  refine (checkInterval_enforces "polling_interval" _).bind fun _ _ => ?_
  refine (checkInterval_enforces "pulse_interval" _).bind fun _ hpulse => ?_
  refine (checkInterval_enforces "pulse_expiration" _).bind fun _ _ => ?_
  refine (checkBounded_enforces "retry_delay" _).bind fun _ _ => ?_
  -- By now the pulse interval is known to be a week at most.
  refine (s.processors.checkProportions_enforces (checkInterval_eq_ok_iff.mp hpulse).2).bind
    fun _ _ => ?_
  refine (checkCount_enforces "batch_size" _).bind fun _ _ => ?_
  refine (checkCount_enforces "max_consecutive_batches" _).bind fun _ _ => ?_
  -- The last two settings may be left out, and are then not looked at.
  cases s.processors.transactionTimeout <;> cases s.processors.maxRetryAttempts
  · exact Enforces.pass _
  · exact (checkCount_enforces "max_retry_attempts" _).bind fun _ _ => Enforces.pass _
  · exact (checkInterval_enforces "transaction_timeout" _).bind fun _ _ => Enforces.pass _
  · exact (checkInterval_enforces "transaction_timeout" _).bind fun _ _ =>
      (checkCount_enforces "max_retry_attempts" _).bind fun _ _ => Enforces.pass _

end Settings

section Consistent

/-- An interval is a millisecond at least and a week at most. -/
def IsInterval (ms : Nat) : Prop :=
  1 ≤ ms ∧ ms ≤ maxIntervalMs.toNat

/-- Static settings of shards name a total and shards below it. -/
def ShardSettings.Consistent (s : ShardSettings) : Prop :=
  s.isStatic = true → ∃ total assigned, s.totalCount = some total ∧ s.assigned = some assigned ∧
    1 ≤ total.toInt ∧ total.toInt ≤ 4294967295 ∧ assigned ≠ [] ∧
    ∀ index ∈ assigned, 0 ≤ index.toInt ∧ index.toInt < total.toInt

/-- Settings that agree with one another, as statements about numbers. -/
structure Settings.Consistent (s : Settings) : Prop where
  shards : s.shards.Consistent
  polling : IsInterval s.processors.pollingInterval.toNat
  pulse : IsInterval s.processors.pulseInterval.toNat
  expiration : IsInterval s.processors.pulseExpiration.toNat
  delay : s.processors.retryDelay.toNat ≤ maxIntervalMs.toNat
  polling_le_pulse : s.processors.pollingInterval.toNat ≤ s.processors.pulseInterval.toNat
  pulses_le_expiration : 3 * s.processors.pulseInterval.toNat ≤ s.processors.pulseExpiration.toNat
  batch : 0 < s.processors.batchSize.toNat
  batches : 0 < s.processors.maxConsecutiveBatches.toNat
  timeout : ∀ timeout ∈ s.processors.transactionTimeout, IsInterval timeout.toNat
  attempts : ∀ attempts ∈ s.processors.maxRetryAttempts, 0 < attempts.toNat

theorem kept_intervalRules_iff (name : String) (value : UInt64) :
    (∀ r ∈ intervalRules name value, r.Kept) ↔ IsInterval value.toNat := by
  simp [intervalRules, boundRules, IsInterval]

theorem kept_optionalRules_iff {α : Type} (rulesOf : α → List Rule) (o : Option α) :
    (∀ r ∈ optionalRules rulesOf o, r.Kept) ↔ ∀ a ∈ o, ∀ r ∈ rulesOf a, r.Kept := by
  cases o <;> simp [optionalRules]

theorem ShardSettings.kept_iff_consistent (s : ShardSettings) :
    (∀ r ∈ s.rules, r.Kept) ↔ s.Consistent := by
  unfold rules Consistent
  cases s.isStatic with
  | false => simp
  | true =>
      cases s.totalCount with
      | none => simp
      | some total =>
          cases s.assigned with
          | none => simp
          | some assigned => simp [indexRule, and_assoc]

/-- Settings that keep all rules are the consistent ones. -/
theorem Settings.kept_iff_consistent (s : Settings) : (∀ r ∈ s.rules, r.Kept) ↔ s.Consistent := by
  simp only [rules, List.flatten_cons, List.flatten_nil, List.append_nil, List.forall_mem_append,
    s.shards.kept_iff_consistent, kept_intervalRules_iff, kept_optionalRules_iff]
  simp only [boundRules, countRules, ProcessorSettings.proportionRules, List.forall_mem_cons,
    List.not_mem_nil, IsEmpty.forall_iff, implies_true, and_true]
  constructor
  · rintro ⟨hshards, hpolling, hpulse, hexpiration, hdelay, ⟨hle, hpulses⟩, hbatch, hbatches,
      htimeout, hattempts⟩
    exact ⟨hshards, hpolling, hpulse, hexpiration, hdelay, hle, hpulses, hbatch, hbatches,
      htimeout, hattempts⟩
  · intro h
    exact ⟨h.shards, h.polling, h.pulse, h.expiration, h.delay,
      ⟨h.polling_le_pulse, h.pulses_le_expiration⟩, h.batch, h.batches, h.timeout, h.attempts⟩

end Consistent

section Assignments

/-- The shards of a node are those that its settings name, one for each index and in ascending
    order. -/
structure Owned (total : Int) (indices : List Int) (owned : List Assignment) : Prop where
  ascending : owned.Pairwise fun a b => a.index.toNat < b.index.toNat
  total_eq : ∀ a ∈ owned, (a.total.toNat : Int) = total
  index_iff : ∀ i : Int, i ∈ indices ↔ ∃ a ∈ owned, (a.index.toNat : Int) = i

namespace ShardSettings

variable {s : ShardSettings} {total : UInt32} {assigned : List UInt32} {count : Int64}
  {configured : List Int64}

theorem Static.total_toNat (h : s.Static total assigned count configured) :
    (total.toNat : Int) = count.toInt := by
  have hbounds := h.bounds
  have hzero : (0 : Int64).toInt = 0 := rfl
  have hlargest : (4294967295 : Int64).toInt = 4294967295 := rfl
  rw [Int64.le_iff_toInt_le, Int64.lt_iff_toInt_lt, hzero, hlargest] at hbounds
  rw [h.total_eq]
  exact cutDown_toNat (by omega) (by omega)

theorem Static.index_toNat (h : s.Static total assigned count configured) {index : Int64}
    (hindex : index ∈ configured) :
    ((UInt32.ofNat index.toInt.toNat).toNat : Int) = index.toInt ∧
      UInt32.ofNat index.toInt.toNat < total := by
  have hkept := (distinctIndices_enforces count configured).kept _ h.distinct
  have hbounds : 0 ≤ index.toInt ∧ index.toInt < count.toInt :=
    hkept _ (List.mem_map_of_mem hindex)
  have htotal := h.total_toNat
  have hlt := total.toNat_lt
  have hcut := cutDown_toNat hbounds.1 (by omega)
  refine ⟨hcut, ?_⟩
  rw [UInt32.lt_iff_toNat_lt]
  omega

/-- No index is lost when it is cut down to a word. -/
theorem owned_of_validate (h : s.Static total assigned count configured) :
    Owned count.toInt (configured.map Int64.toInt)
      (assigned.filterMap (Assignment.ofNumbers? total)) := by
  constructor
  · refine List.Pairwise.filterMap _ ?_ (distinctIndices_ascending h.distinct)
    intro i j hlt a ha b hb
    rw [(Assignment.ofNumbers?_eq_some.mp ha).2, (Assignment.ofNumbers?_eq_some.mp hb).2]
    exact UInt32.lt_iff_toNat_lt.mp hlt
  · intro a ha
    rcases List.mem_filterMap.mp ha with ⟨_, _, ha⟩
    rw [(Assignment.ofNumbers?_eq_some.mp ha).1]
    exact h.total_toNat
  · intro i
    rw [List.mem_map]
    constructor
    -- Validation has put every index below the total, so none is filtered out.
    · rintro ⟨index, hindex, rfl⟩
      rcases h.index_toNat hindex with ⟨hword, hlt⟩
      have hmem := (mem_distinctIndices_iff h.distinct).mpr ⟨index, hindex, rfl⟩
      exact ⟨⟨total, _, hlt⟩, List.mem_filterMap.mpr ⟨_, hmem,
        Assignment.ofNumbers?_eq_some.mpr ⟨rfl, rfl⟩⟩, hword⟩
    · rintro ⟨a, ha, rfl⟩
      rcases List.mem_filterMap.mp ha with ⟨x, hx, ha⟩
      rcases (mem_distinctIndices_iff h.distinct).mp hx with ⟨index, hindex, rfl⟩
      refine ⟨index, hindex, ?_⟩
      rw [(Assignment.ofNumbers?_eq_some.mp ha).2]
      exact (h.index_toNat hindex).1.symm

end ShardSettings

/-- Settings pass exactly if they are consistent. A node then starts one agent without a shard,
    or one for each of the shards that it is configured to own. Otherwise the error is that of
    the first breach. -/
theorem consistent_settings_pass (s : Settings) :
    ((∃ v, s.validate = .ok v) ↔ s.Consistent) ∧
    (∀ v, s.validate = .ok v →
      s.shards.isStatic = false ∧ v.assignments = [none] ∨
      s.shards.isStatic = true ∧ ∃ count configured owned,
        s.shards.totalCount = some count ∧ s.shards.assigned = some configured ∧
        v.assignments = owned.map some ∧
        Owned count.toInt (configured.map Int64.toInt) owned) ∧
    ∀ e, s.validate = .error e ↔ FirstBreach s.rules e := by
  refine ⟨?_, fun v hv => ?_, fun e => s.validate_enforces.eq_error_iff⟩
  · rw [s.validate_enforces.exists_ok_iff, s.kept_iff_consistent]
  · unfold Validated.assignments
    rcases ShardSettings.cases_of_validate (Settings.passed_of_validate hv).sharding with
      ⟨hdynamic, hshards⟩ | ⟨total, assigned, count, configured, hstatic, hshards⟩
    · rw [hshards]
      exact Or.inl ⟨hdynamic, rfl⟩
    · rw [hshards]
      exact Or.inr ⟨hstatic.isStatic, count, configured, _, hstatic.count_eq, hstatic.assigned_eq,
        rfl, ShardSettings.owned_of_validate hstatic⟩

example :
    let shards : ShardSettings := ⟨true, some 4, some [3, 1, 3]⟩
    (Settings.validate { shards }).toOption.map Validated.assignments =
      some [Assignment.ofNumbers? 4 1, Assignment.ofNumbers? 4 3] := by decide

end Assignments

end OutboxCluster
