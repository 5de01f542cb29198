import Mathlib.Data.Int.Basic
import OutboxCluster.Text.Blank
import OutboxCluster.Text.Numeral

/-!
# What Numerals Denote

A reader of numerals goes through the text digit by digit and gives up at the first character
that does not fit. What it reads is said here without the reader: a text denotes a number if
it is an optional sign before some digits, and the digits have that number as their value in
the decimal system. Leading zeros do not matter, and neither does a plus sign.

Each reader of a machine word accepts exactly the texts that denote a number of this word, so
a number out of range is refused and never wrapped. The numerals that are written for numbers
are among the accepted ones, and are read back as these numbers.

## Main definitions

* `Text.Digits`: A run of digits has a value.
* `Text.Unsigned`, `Text.Signed`: A text denotes a number.

## Theorems

* `Text.natural?_eq_some_iff`: The reader of digits.
* `Text.word64?_eq_some_iff`, `Text.word32?_eq_some_iff`, `Text.integer64?_eq_some_iff`: The
  readers of words.
* `Text.unsigned_toString`, `Text.signed_toString`: What is written denotes the number.
* `Text.plain_toString_nat`, `Text.plain_toString_int`: It has neither blanks nor commas.
-/

namespace OutboxCluster

namespace Text

/-- A run of digits, not empty, and its value in the decimal system. -/
structure Digits (s : List Char) (n : Nat) : Prop where
  ne_nil : s ≠ []
  isDigit : ∀ c ∈ s, c.isDigit = true
  value : Nat.ofDigitChars 10 s 0 = n

/-- A text denotes a number without a sign, or with a plus sign. -/
def Unsigned (s : List Char) (n : Nat) : Prop :=
  ∃ digits, Digits digits n ∧ (s = digits ∨ s = '+' :: digits)

/-- A text denotes an integer. -/
def Signed (s : List Char) (n : Int) : Prop :=
  ∃ digits m, Digits digits m ∧
    ((s = digits ∨ s = '+' :: digits) ∧ n = m ∨ s = '-' :: digits ∧ n = -m)

section Read

variable {s : List Char}

theorem digit?_eq (c : Char) :
    digit? c = if c.isDigit then some (c.toNat - '0'.toNat) else none := by
  simp [digit?, Char.isDigit, Char.le_def]

/-- What is read goes on from what has been read so far. -/
theorem continueNatural?_eq (start : Nat) (s : List Char) :
    continueNatural? start s =
      if s.all Char.isDigit then some (Nat.ofDigitChars 10 s start) else none := by
  induction s generalizing start with
  | nil => simp [continueNatural?]
  | cons c s ih =>
      unfold continueNatural? at ih ⊢
      rw [List.foldlM_cons, digit?_eq]
      by_cases hc : c.isDigit = true
      · rw [if_pos hc, Option.map_some]
        refine (ih (10 * start + (c.toNat - '0'.toNat))).trans ?_
        simp only [List.all_cons, hc, Bool.true_and, Nat.ofDigitChars_cons]
      · rw [if_neg hc, List.all_cons, eq_false_of_ne_true hc]
        rfl

theorem natural?_eq_some_iff {n : Nat} : natural? s = some n ↔ Digits s n := by
  unfold natural?
  rw [continueNatural?_eq]
  constructor
  · intro h
    by_cases hnil : s.isEmpty = true
    · simp [hnil] at h
    · by_cases hdigits : s.all Char.isDigit = true
      · rw [if_neg hnil, if_pos hdigits] at h
        exact ⟨fun heq => hnil (List.isEmpty_iff.mpr heq), List.all_eq_true.mp hdigits,
          Option.some.inj h⟩
      · rw [if_neg hnil, if_neg hdigits] at h
        exact nomatch h
  · intro h
    rw [if_neg fun hnil => h.ne_nil (List.isEmpty_iff.mp hnil),
      if_pos (List.all_eq_true.mpr h.isDigit), h.value]

/-- A sign is no digit. -/
theorem not_digits_cons {c : Char} {n : Nat} (hc : c.isDigit = false) : ¬ Digits (c :: s) n := by
  intro h
  have := h.isDigit c List.mem_cons_self
  rw [hc] at this
  exact Bool.false_ne_true this

theorem unsigned?_eq_some_iff {n : Nat} : unsigned? s = some n ↔ Unsigned s n := by
  unfold unsigned? Unsigned
  split
  · -- After a plus sign there are digits only.
    rename_i digits
    rw [natural?_eq_some_iff]
    constructor
    · intro h
      exact ⟨digits, h, Or.inr rfl⟩
    · rintro ⟨_, h, rfl | heq⟩
      · exact absurd h (not_digits_cons rfl)
      · rw [(List.cons.inj heq).2]
        exact h
  · rename_i hplus
    rw [natural?_eq_some_iff]
    constructor
    · intro h
      exact ⟨s, h, Or.inl rfl⟩
    · rintro ⟨digits, h, rfl | heq⟩
      · exact h
      · exact absurd heq (hplus digits)

theorem signed?_eq_some_iff {n : Int} : signed? s = some n ↔ Signed s n := by
  unfold signed? Signed
  split
  · rename_i digits
    rw [Option.map_eq_some_iff]
    constructor
    · rintro ⟨m, hm, rfl⟩
      exact ⟨digits, m, natural?_eq_some_iff.mp hm, Or.inl ⟨Or.inr rfl, rfl⟩⟩
    · rintro ⟨_, m, h, ⟨rfl | heq, rfl⟩ | ⟨heq, rfl⟩⟩
      · exact absurd h (not_digits_cons rfl)
      · rw [(List.cons.inj heq).2]
        exact ⟨m, natural?_eq_some_iff.mpr h, rfl⟩
      · exact absurd (List.cons.inj heq).1 (by decide)
  · rename_i digits
    rw [Option.map_eq_some_iff]
    constructor
    · rintro ⟨m, hm, rfl⟩
      exact ⟨digits, m, natural?_eq_some_iff.mp hm, Or.inr ⟨rfl, rfl⟩⟩
    · rintro ⟨_, m, h, ⟨rfl | heq, rfl⟩ | ⟨heq, rfl⟩⟩
      · exact absurd h (not_digits_cons rfl)
      · exact absurd (List.cons.inj heq).1 (by decide)
      · rw [(List.cons.inj heq).2]
        exact ⟨m, natural?_eq_some_iff.mpr h, rfl⟩
  -- Without a sign all of the text has to be digits.
  · rename_i hplus hminus
    rw [Option.map_eq_some_iff]
    constructor
    · rintro ⟨m, hm, rfl⟩
      exact ⟨s, m, natural?_eq_some_iff.mp hm, Or.inl ⟨Or.inl rfl, rfl⟩⟩
    · rintro ⟨digits, m, h, ⟨rfl | heq, rfl⟩ | ⟨heq, rfl⟩⟩
      · exact ⟨m, natural?_eq_some_iff.mpr h, rfl⟩
      · exact absurd heq (hplus digits)
      · exact absurd heq (hminus digits)

/-- A word is read from the texts that denote it, and from no others. -/
theorem word64?_eq_some_iff {w : UInt64} : word64? s = some w ↔ Unsigned s w.toNat := by
  rw [← unsigned?_eq_some_iff]
  unfold word64?
  cases unsigned? s with
  | none => simp
  | some n =>
      have hw := w.toNat_lt
      dsimp only
      by_cases hn : n < 18446744073709551616
      · have hword : (UInt64.ofNat n).toNat = n := UInt64.toNat_ofNat_of_lt' hn
        rw [if_pos hn, Option.some.injEq, Option.some.injEq, ← UInt64.toNat_inj, hword]
      · rw [if_neg hn, Option.some.injEq]
        exact iff_of_false (fun h => nomatch h) (by omega)

theorem word32?_eq_some_iff {w : UInt32} : word32? s = some w ↔ Unsigned s w.toNat := by
  rw [← unsigned?_eq_some_iff]
  unfold word32?
  cases unsigned? s with
  | none => simp
  | some n =>
      have hw := w.toNat_lt
      dsimp only
      by_cases hn : n < 4294967296
      · have hword : (UInt32.ofNat n).toNat = n := UInt32.toNat_ofNat_of_lt' hn
        rw [if_pos hn, Option.some.injEq, Option.some.injEq, ← UInt32.toNat_inj, hword]
      · rw [if_neg hn, Option.some.injEq]
        exact iff_of_false (fun h => nomatch h) (by omega)

example : word32? "+0050".toList = some 50 ∧ word32? "-0".toList = none ∧
    word32? "4294967296".toList = none := by decide

theorem integer64?_eq_some_iff {w : Int64} : integer64? s = some w ↔ Signed s w.toInt := by
  rw [← signed?_eq_some_iff]
  unfold integer64?
  cases signed? s with
  | none => simp
  | some n =>
      have hle := w.toInt_lt
      have hge := w.le_toInt
      by_cases hn : -9223372036854775808 ≤ n ∧ n ≤ 9223372036854775807
      · have hword : (Int64.ofInt n).toInt = n := Int64.toInt_ofInt_of_le hn.1 (by omega)
        simp [fitsInt64, hn, ← Int64.toInt_inj, hword]
      · simp [fitsInt64]
        omega

theorem truth?_eq_some_iff {b : Bool} : truth? s = some b ↔ s = (toString b).toList := by
  unfold truth?
  by_cases htrue : s = "true".toList
  · rw [if_pos htrue, htrue]
    cases b <;> decide
  · rw [if_neg htrue]
    by_cases hfalse : s = "false".toList
    · rw [if_pos hfalse, hfalse]
      cases b <;> decide
    · rw [if_neg hfalse]
      cases b with
      | false => exact iff_of_false (fun h => nomatch h) hfalse
      | true => exact iff_of_false (fun h => nomatch h) htrue

end Read

section Write

theorem digits_toString (n : Nat) : Digits (toString n).toList n := by
  rw [Nat.toString_eq_repr, Nat.toList_repr]
  exact ⟨Nat.toDigits_ne_nil, fun c hc => Nat.isDigit_of_mem_toDigits (by decide) (by decide) hc,
    Nat.ofDigitChars_ten_toDigits⟩

theorem unsigned_toString (n : Nat) : Unsigned (toString n).toList n :=
  ⟨_, digits_toString n, Or.inl rfl⟩

/-- An integer is written by its digits, after a minus sign if it is negative. -/
theorem toList_toString_int (n : Int) : (toString n).toList =
    if 0 ≤ n then (toString n.toNat).toList else '-' :: (toString (-n).toNat).toList := by
  rw [Int.toString_eq_repr, Int.repr_eq_if]
  split <;> simp [Nat.toString_eq_repr]

theorem signed_toString (n : Int) : Signed (toString n).toList n := by
  rw [toList_toString_int]
  split
  · exact ⟨_, _, digits_toString n.toNat, Or.inl ⟨Or.inl rfl, by omega⟩⟩
  · exact ⟨_, _, digits_toString (-n).toNat, Or.inr ⟨rfl, by omega⟩⟩

/-- A text that is not empty, and has neither blanks nor commas in it. -/
structure Plain (s : List Char) : Prop where
  ne_nil : s ≠ []
  not_blank : ∀ c ∈ s, isBlank c = false
  not_comma : ',' ∉ s

theorem isBlank_of_isDigit {c : Char} (h : c.isDigit = true) : isBlank c = false := by
  have hrange : 48 ≤ c.toNat ∧ c.toNat ≤ 57 := by
    simpa [Char.isDigit, UInt32.le_iff_toNat_le] using h
  simp [isBlank, blankRanges]
  omega

theorem Digits.plain {s : List Char} {n : Nat} (h : Digits s n) : Plain s where
  ne_nil := h.ne_nil
  not_blank := fun c hc => isBlank_of_isDigit (h.isDigit c hc)
  not_comma := fun hc => absurd (h.isDigit _ hc) (by decide)

theorem plain_toString_nat (n : Nat) : Plain (toString n).toList :=
  (digits_toString n).plain

theorem plain_toString_int (n : Int) : Plain (toString n).toList := by
  rw [toList_toString_int]
  split
  · exact plain_toString_nat _
  · have hplain := plain_toString_nat (-n).toNat
    refine ⟨List.cons_ne_nil _ _, fun c hc => ?_, fun hc => ?_⟩
    · rcases List.mem_cons.mp hc with rfl | hc
      · rfl
      · exact hplain.not_blank c hc
    · rcases List.mem_cons.mp hc with heq | hc
      · exact absurd heq (by decide)
      · exact hplain.not_comma hc

/-- There is nothing to trim where there are no blanks. -/
theorem Plain.trim {s : List Char} (h : Plain s) : Text.trim s = s := by
  have hkeep : ∀ l : List Char, (∀ c ∈ l, isBlank c = false) → l.dropWhile isBlank = l := by
    intro l hl
    cases l with
    | nil => rfl
    | cons c l => rw [List.dropWhile_cons_of_neg (by simp [hl c List.mem_cons_self])]
  unfold Text.trim
  rw [hkeep s h.not_blank, hkeep _ fun c hc => h.not_blank c (List.mem_reverse.mp hc),
    List.reverse_reverse]

end Write

end Text

end OutboxCluster
