import Mathlib.Data.List.Forall2
import Mathlib.Data.List.TakeDrop
import Mathlib.Data.List.TakeWhile
import OutboxCluster.Json
import OutboxCluster.Proofs.Numeral

/-!
# Tokens of JSON Text

What the readers of white space, numbers, strings and names accept, said without the readers.
The definitions say which texts are tokens, and a reader is right about them in two
directions: what it takes off the front of a text is a token, and it takes every token whole.

The second direction depends on what follows. Digits are read as far as they go, so a number
is taken whole only if nothing comes next that it could go on with. `NoDigit` and `Stops` say
so. A string ends with its quote, and nothing is asked of what follows it.

A string is read in one way and passed over in another. Passing over it asks less of an
escape (`Chars`): four hexadecimal digits are enough, where reading it (`Spells`) asks for a
character, and for the second half of one that takes two.

Numerals have no zero in front of other digits. That leaves one way to write a number
(`whole_iff`, `integer_iff`), and it is the way in which numbers are written.

## Main definitions

* `Json.Space`, `Json.Padded`: White space, and a text with white space around it.
* `Json.Whole`, `Json.Number`, `Json.Integer`: The texts of numbers.
* `Json.Chars`, `Json.Spells`: The insides of strings.
* `Json.Quoted`: A string with its quotes.

## Theorems

* `expect?_eq_some_iff`: A character after white space.
* `digits?_eq_some_iff`, `whole?_eq_some_iff`: The readers of digits.
* `skipNumber?_sound`, `skipNumber?_append`: A number that is passed over.
* `whole_iff`, `integer_iff`: Numbers are written in one way.
* `skipString?_eq_some_iff`: A string that is passed over.
* `stringBody?_sound`, `stringBody?_append`: A string that is read.
* `bind_name?_eq_some_iff`, `bind_skipString?_eq_some_iff`: The key of a field.
-/

namespace OutboxCluster

namespace Json

section Grammar

/-- A character of white space. -/
def IsSpace (c : Char) : Prop := c = ' ' ∨ c = '\n' ∨ c = '\t' ∨ c = '\r'

instance (c : Char) : Decidable (IsSpace c) := inferInstanceAs (Decidable (_ ∨ _))

/-- Nothing but white space. -/
def Space (s : List Char) : Prop := ∀ c ∈ s, IsSpace c

/-- A text of some kind, with white space around it. -/
def Padded (P : List Char → Prop) (s : List Char) : Prop :=
  ∃ before text after, Space before ∧ P text ∧ Space after ∧ s = before ++ text ++ after

/-- The digits of a number, with no zero in front of others. -/
structure Whole (s : List Char) (n : Nat) : Prop where
  digits : Text.Digits s n
  zero : ∀ more, s = '0' :: more → more = []

/-- The fraction of a number, which may be left out. -/
def Fraction (s : List Char) : Prop :=
  s = [] ∨ ∃ digits n, Text.Digits digits n ∧ s = '.' :: digits

/-- The exponent of a number, which may be left out. -/
def Exponent (s : List Char) : Prop :=
  s = [] ∨ ∃ mark sign digits n, (mark = 'e' ∨ mark = 'E') ∧
    (sign = [] ∨ sign = ['+'] ∨ sign = ['-']) ∧ Text.Digits digits n ∧
    s = mark :: (sign ++ digits)

/-- A number without its sign. -/
def Number (s : List Char) : Prop :=
  ∃ whole n fraction exponent, Whole whole n ∧ Fraction fraction ∧ Exponent exponent ∧
    s = whole ++ (fraction ++ exponent)

/-- An integer of 64 bits. Zero has no sign. -/
inductive Integer : List Char → Int → Prop where
  | plain {s : List Char} {n : Nat} : Whole s n → Text.fitsInt64 n = true → Integer s n
  | negative {s : List Char} {n : Nat} : Whole s n → n ≠ 0 → Text.fitsInt64 (-n) = true →
      Integer ('-' :: s) (-n)

end Grammar

section Space

variable {s w rest : List Char} {c : Char}

theorem skipSpace_eq (s : List Char) : skipSpace s = s.dropWhile (fun c => decide (IsSpace c)) := by
  have heq : (fun c => c = ' ' || c = '\n' || c = '\t' || c = '\r' : Char → Bool) =
      fun c => decide (IsSpace c) := by
    funext c
    rw [Bool.eq_iff_iff]
    simp only [Bool.or_eq_true, decide_eq_true_eq, or_assoc]
    exact Iff.rfl
  rw [skipSpace, heq]

theorem skipSpace_append (h : Space w) (s : List Char) : skipSpace (w ++ s) = skipSpace s := by
  rw [skipSpace_eq, skipSpace_eq, List.dropWhile_append_of_pos fun c hc => decide_eq_true (h c hc)]

theorem skipSpace_cons (hc : ¬ IsSpace c) (s : List Char) : skipSpace (c :: s) = c :: s := by
  rw [skipSpace_eq, List.dropWhile_cons_of_neg (by simpa using hc)]

theorem exists_space (s : List Char) : ∃ w, Space w ∧ s = w ++ skipSpace s := by
  refine ⟨s.takeWhile fun c => decide (IsSpace c), fun c hc => ?_, ?_⟩
  · simpa using List.mem_takeWhile_imp hc
  · rw [skipSpace_eq, List.takeWhile_append_dropWhile]

theorem skipSpace_skipSpace (s : List Char) : skipSpace (skipSpace s) = skipSpace s := by
  rcases exists_space s with ⟨w, hw, hs⟩
  conv_rhs => rw [hs]
  rw [skipSpace_append hw]

theorem skipSpace_eq_cons_iff (hc : ¬ IsSpace c) :
    skipSpace s = c :: rest ↔ ∃ w, Space w ∧ s = w ++ c :: rest := by
  constructor
  · intro h
    rcases exists_space s with ⟨w, hw, hs⟩
    exact ⟨w, hw, h ▸ hs⟩
  · rintro ⟨w, hw, rfl⟩
    rw [skipSpace_append hw, skipSpace_cons hc]

theorem expect?_eq_some_iff (hc : ¬ IsSpace c) :
    expect? c s = some rest ↔ ∃ w, Space w ∧ s = w ++ c :: rest := by
  rw [← skipSpace_eq_cons_iff hc]
  unfold expect?
  rcases skipSpace s with _ | ⟨d, more⟩
  · simp
  · by_cases hd : d = c <;> simp [hd]

theorem expect?_append (hc : ¬ IsSpace c) (hw : Space w) (rest : List Char) :
    expect? c (w ++ c :: rest) = some rest :=
  (expect?_eq_some_iff hc).mpr ⟨w, hw, rfl⟩

end Space

section Numbers

variable {s rest : List Char}

/-- No digit comes next. -/
def NoDigit (rest : List Char) : Prop := ∀ c ∈ rest.head?, c.isDigit = false

/-- Nothing comes next that a number could go on with. -/
def Stops (rest : List Char) : Prop :=
  ∀ c ∈ rest.head?, c.isDigit = false ∧ c ≠ '.' ∧ c ≠ 'e' ∧ c ≠ 'E'

theorem Stops.noDigit (h : Stops rest) : NoDigit rest := fun c hc => (h c hc).1

theorem digits?_eq_some_iff {digits : List Char} : digits? s = some (digits, rest) ↔
    (∃ n, Text.Digits digits n) ∧ NoDigit rest ∧ s = digits ++ rest := by
  unfold digits?
  rw [List.span_eq_takeWhile_dropWhile]
  constructor
  · intro h
    have hdigit : ∀ c ∈ s.takeWhile Char.isDigit, c.isDigit = true := fun c hc =>
      List.mem_takeWhile_imp hc
    have hrest : NoDigit (s.dropWhile Char.isDigit) := by
      intro c hc
      have hnot := List.head?_dropWhile_not Char.isDigit s
      rw [Option.mem_def.mp hc] at hnot
      simpa using hnot
    have hs := (List.takeWhile_append_dropWhile (p := Char.isDigit) (l := s)).symm
    -- There must be one digit at least.
    generalize s.takeWhile Char.isDigit = front at h hdigit hs
    generalize s.dropWhile Char.isDigit = back at h hrest hs
    cases front with
    | nil => exact nomatch h
    | cons c front =>
        simp only [Option.some.injEq, Prod.mk.injEq] at h
        rcases h with ⟨rfl, rfl⟩
        exact ⟨⟨_, List.cons_ne_nil _ _, hdigit, rfl⟩, hrest, hs⟩
  · rintro ⟨⟨n, hne, hdigit, -⟩, hrest, rfl⟩
    have hdrop : rest.dropWhile Char.isDigit = rest := by
      cases rest with
      | nil => rfl
      | cons c rest => exact List.dropWhile_cons_of_neg (by simp [hrest c rfl])
    have htake : rest.takeWhile Char.isDigit = [] := by
      cases rest with
      | nil => rfl
      | cons c rest => exact List.takeWhile_cons_of_neg (by simp [hrest c rfl])
    rw [List.takeWhile_append_of_pos hdigit, List.dropWhile_append_of_pos hdigit, htake, hdrop,
      List.append_nil]
    cases digits with
    | nil => exact absurd rfl hne
    | cons c digits => rfl

theorem whole?_eq_some_iff {digits : List Char} : whole? s = some (digits, rest) ↔
    (∃ n, Whole digits n) ∧ NoDigit rest ∧ s = digits ++ rest := by
  have hiff : digits? s = some (digits, rest) ↔ _ := digits?_eq_some_iff
  unfold whole?
  constructor
  · intro h
    split at h
    · exact nomatch h
    · rename_i hzero
      rcases hiff.mp h with ⟨⟨n, hn⟩, hrest, hs⟩
      refine ⟨⟨n, hn, fun more hmore => ?_⟩, hrest, hs⟩
      cases more with
      | nil => rfl
      | cons d more => exact absurd (hmore ▸ h) (hzero d more rest)
  · rintro ⟨⟨n, hn⟩, hrest, hs⟩
    have h := hiff.mpr ⟨⟨n, hn.digits⟩, hrest, hs⟩
    rw [h]
    split
    · rename_i heq
      simp only [Option.some.injEq, Prod.mk.injEq] at heq
      exact absurd (hn.zero _ heq.1) (List.cons_ne_nil _ _)
    · rfl

theorem not_isSpace_of_isDigit {c : Char} (hc : c.isDigit = true) : ¬ IsSpace c := by
  rintro (rfl | rfl | rfl | rfl) <;> exact absurd hc (by decide)

theorem noDigit_cons {c : Char} (hc : c.isDigit = false) (s : List Char) : NoDigit (c :: s) := by
  intro d hd
  rw [List.head?_cons, Option.mem_some_iff] at hd
  exact hd ▸ hc

theorem Fraction.noDigit_append {f : List Char} (h : Fraction f) (hrest : NoDigit rest) :
    NoDigit (f ++ rest) := by
  rcases h with rfl | ⟨digits, n, _, rfl⟩
  · exact hrest
  · exact noDigit_cons rfl _

theorem Exponent.noDigit_append {e : List Char} (h : Exponent e) (hrest : NoDigit rest) :
    NoDigit (e ++ rest) := by
  rcases h with rfl | ⟨mark, sign, digits, n, rfl | rfl, _, _, rfl⟩
  · exact hrest
  · exact noDigit_cons rfl _
  · exact noDigit_cons rfl _

theorem skipFraction?_sound (h : skipFraction? s = some rest) :
    ∃ f, Fraction f ∧ s = f ++ rest := by
  unfold skipFraction? at h
  split at h
  · rcases Option.map_eq_some_iff.mp h with ⟨⟨digits, left⟩, hread, rfl⟩
    rcases digits?_eq_some_iff.mp hread with ⟨⟨n, hn⟩, _, rfl⟩
    exact ⟨'.' :: digits, Or.inr ⟨digits, n, hn, rfl⟩, rfl⟩
  · exact ⟨[], Or.inl rfl, Option.some.inj h⟩

theorem skipExponent?_sound (h : skipExponent? s = some rest) :
    ∃ e, Exponent e ∧ s = e ++ rest := by
  -- The sign is read off before the digits, whichever it is.
  have hdigits : ∀ {mark : Char} {sign after : List Char}, (mark = 'e' ∨ mark = 'E') →
      (sign = [] ∨ sign = ['+'] ∨ sign = ['-']) → (digits? after).map (·.2) = some rest →
        ∃ e, Exponent e ∧ mark :: (sign ++ after) = e ++ rest := by
    intro mark sign after hmark hsign hafter
    rcases Option.map_eq_some_iff.mp hafter with ⟨⟨digits, left⟩, hread, rfl⟩
    rcases digits?_eq_some_iff.mp hread with ⟨⟨n, hn⟩, _, rfl⟩
    exact ⟨mark :: (sign ++ digits), Or.inr ⟨mark, sign, digits, n, hmark, hsign, hn, rfl⟩,
      by simp⟩
  unfold skipExponent? at h
  split at h
  · exact ⟨[], Or.inl rfl, Option.some.inj h⟩
  · split at h
    · rename_i hmark
      split at h
      · exact hdigits hmark (Or.inr (Or.inl rfl)) h
      · exact hdigits hmark (Or.inr (Or.inr rfl)) h
      · exact hdigits hmark (Or.inl rfl) h
    · exact ⟨[], Or.inl rfl, Option.some.inj h⟩

theorem skipFraction?_append {f : List Char} (h : Fraction f) (hrest : NoDigit rest)
    (hdot : ∀ c ∈ rest.head?, c ≠ '.') : skipFraction? (f ++ rest) = some rest := by
  rcases h with rfl | ⟨digits, n, hn, rfl⟩
  · unfold skipFraction?
    split
    · rename_i left heq
      rw [List.nil_append] at heq
      exact absurd rfl (hdot '.' (by rw [heq]; rfl))
    · rfl
  · rw [List.cons_append, skipFraction?, digits?_eq_some_iff.mpr ⟨⟨n, hn⟩, hrest, rfl⟩]
    rfl

/-- Digits begin with a digit. -/
theorem digits_append_ne_cons {digits : List Char} {n : Nat} (h : Text.Digits digits n)
    {c : Char} (hc : c.isDigit = false) (rest more : List Char) : digits ++ rest ≠ c :: more := by
  cases digits with
  | nil => exact absurd rfl h.ne_nil
  | cons d digits =>
      intro heq
      have hd := h.isDigit d List.mem_cons_self
      rw [(List.cons.inj heq).1, hc] at hd
      exact Bool.false_ne_true hd

theorem skipExponent?_append {e : List Char} (h : Exponent e) (hrest : Stops rest) :
    skipExponent? (e ++ rest) = some rest := by
  rcases h with rfl | ⟨mark, sign, digits, n, hmark, hsign, hn, rfl⟩
  · cases rest with
    | nil => rfl
    | cons c rest =>
        have hc := hrest c rfl
        simp [skipExponent?, hc]
  · have hread := digits?_eq_some_iff.mpr ⟨⟨n, hn⟩, hrest.noDigit, rfl⟩
    -- Without a sign the digits come at once, and none of them is taken for one.
    rcases hsign with rfl | rfl | rfl
    · simp only [List.nil_append, List.cons_append, skipExponent?, if_pos hmark]
      split
      · rename_i heq
        exact absurd heq (digits_append_ne_cons hn rfl _ _)
      · rename_i heq
        exact absurd heq (digits_append_ne_cons hn rfl _ _)
      · rw [hread]
        rfl
    · simp [skipExponent?, hmark, hread]
    · simp [skipExponent?, hmark, hread]

theorem skipNumber?_sound (h : skipNumber? s = some rest) :
    ∃ number, Number number ∧ s = number ++ rest := by
  unfold skipNumber? at h
  rcases Option.bind_eq_some_iff.mp h with ⟨⟨whole, afterWhole⟩, hwhole, h⟩
  rcases Option.bind_eq_some_iff.mp h with ⟨afterFraction, hfraction, hexponent⟩
  rcases whole?_eq_some_iff.mp hwhole with ⟨⟨n, hn⟩, _, rfl⟩
  rcases skipFraction?_sound hfraction with ⟨f, hf, rfl⟩
  rcases skipExponent?_sound hexponent with ⟨e, he, rfl⟩
  exact ⟨_, ⟨whole, n, f, e, hn, hf, he, rfl⟩, by simp⟩

theorem skipNumber?_append {number : List Char} (h : Number number) (hrest : Stops rest) :
    skipNumber? (number ++ rest) = some rest := by
  rcases h with ⟨whole, n, f, e, hn, hf, he, rfl⟩
  have hafter : NoDigit (e ++ rest) := he.noDigit_append hrest.noDigit
  have hdot : ∀ c ∈ (e ++ rest).head?, c ≠ '.' := by
    rcases he with rfl | ⟨mark, sign, digits, n, rfl | rfl, _, _, rfl⟩
    · exact fun c hc => (hrest c hc).2.1
    · simp
    · simp
  have hwhole : whole? (whole ++ (f ++ (e ++ rest))) = some (whole, f ++ (e ++ rest)) :=
    whole?_eq_some_iff.mpr ⟨⟨n, hn⟩, hf.noDigit_append hafter, rfl⟩
  simp [skipNumber?, hwhole, skipFraction?_append hf hafter hdot, skipExponent?_append he hrest]

end Numbers

section Numerals

/-- A digit is the numeral of its value. -/
theorem toDigits_digit {c : Char} (hc : c.isDigit = true) :
    c.toNat - '0'.toNat < 10 ∧ Nat.toDigits 10 (c.toNat - '0'.toNat) = [c] := by
  have hrange : 48 ≤ c.toNat ∧ c.toNat ≤ 57 := Char.isDigit_iff_toNat.mp hc
  have hzero : '0'.toNat = 48 := rfl
  have hlt : c.toNat - '0'.toNat < 10 := by omega
  have hdigit : Nat.digitChar (c.toNat - '0'.toNat) = c := by
    rw [← Char.toNat_inj, Nat.toNat_digitChar_of_lt_ten hlt]
    omega
  exact ⟨hlt, by rw [Nat.toDigits_of_lt_base hlt, hdigit]⟩

/-- Digits that go on after a numeral make a numeral. -/
theorem toDigits_append {n : Nat} (hn : 0 < n) {s : List Char} (h : ∀ c ∈ s, c.isDigit = true) :
    Nat.toDigits 10 n ++ s = Nat.toDigits 10 (Nat.ofDigitChars 10 s n) := by
  induction s generalizing n with
  | nil => rw [List.append_nil, Nat.ofDigitChars_nil]
  | cons c s ih =>
      rcases List.forall_mem_cons.mp h with ⟨hc, hs⟩
      rcases toDigits_digit hc with ⟨hlt, hdigit⟩
      have hnext := Nat.toDigits_append_toDigits (by decide) hn hlt
      rw [hdigit] at hnext
      rw [Nat.ofDigitChars_cons, ← ih (by omega) hs, ← hnext, List.append_assoc]
      rfl

/-- No number is written with a zero in front of other digits. -/
theorem toDigits_zero {n : Nat} {more : List Char} (h : Nat.toDigits 10 n = '0' :: more) :
    more = [] := by
  induction n using Nat.strong_induction_on generalizing more with
  | _ n ih =>
      rw [Nat.toDigits_eq_if (by decide)] at h
      split at h
      · exact (List.cons.inj h).2.symm
      · rcases hfront : Nat.toDigits 10 (n / 10) with _ | ⟨c, front⟩
        · exact absurd hfront Nat.toDigits_ne_nil
        · rw [hfront, List.cons_append] at h
          rcases List.cons.inj h with ⟨rfl, hmore⟩
          rw [ih (n / 10) (by omega) hfront] at hfront
          -- What is in front has the value zero, so there is one digit only.
          have hvalue : n / 10 = 0 := by
            rw [← Nat.ofDigitChars_ten_toDigits (n := n / 10), hfront]
            rfl
          omega

/-- A whole number is written in one way. -/
theorem whole_iff {s : List Char} {n : Nat} : Whole s n ↔ s = (toString n).toList := by
  constructor
  · rintro ⟨hdigits, hzero⟩
    rw [Nat.toString_eq_repr, Nat.toList_repr]
    rcases s with _ | ⟨c, s⟩
    · exact absurd rfl hdigits.ne_nil
    · by_cases hc : c = '0'
      · subst hc
        have hs := hzero s rfl
        subst hs
        rw [← hdigits.value]
        rfl
      · rcases List.forall_mem_cons.mp hdigits.isDigit with ⟨hdigit, hs⟩
        -- The first digit is not zero, so the numeral has as many digits as the text.
        have hpos : 0 < c.toNat - '0'.toNat := by
          have hrange : 48 ≤ c.toNat ∧ c.toNat ≤ 57 := Char.isDigit_iff_toNat.mp hdigit
          have hne : c.toNat ≠ 48 := fun h => hc (Char.toNat_inj.mp h)
          have hzero : '0'.toNat = 48 := rfl
          omega
        have happend := toDigits_append hpos hs
        rw [(toDigits_digit hdigit).2] at happend
        rw [← hdigits.value, Nat.ofDigitChars_cons, Nat.mul_zero, Nat.zero_add, ← happend]
        rfl
  · rintro rfl
    refine ⟨Text.digits_toString n, fun more h => ?_⟩
    rw [Nat.toString_eq_repr, Nat.toList_repr] at h
    exact toDigits_zero h

/-- An integer is written in one way, if it has 64 bits. -/
theorem integer_iff {s : List Char} {n : Int} :
    Integer s n ↔ s = (toString n).toList ∧ Text.fitsInt64 n = true := by
  constructor
  · rintro (⟨hwhole, hfits⟩ | ⟨hwhole, hzero, hfits⟩)
    · rename_i n
      refine ⟨?_, hfits⟩
      rw [whole_iff.mp hwhole, Text.toList_toString_int, if_pos (Int.natCast_nonneg n)]
      rfl
    · rename_i s n
      refine ⟨?_, hfits⟩
      rw [whole_iff.mp hwhole, Text.toList_toString_int, if_neg (by omega), Int.neg_neg]
      rfl
  · rintro ⟨rfl, hfits⟩
    rw [Text.toList_toString_int]
    split
    · have h := Integer.plain (n := n.toNat) (whole_iff.mpr rfl) (by rwa [Int.toNat_of_nonneg ‹_›])
      rwa [Int.toNat_of_nonneg ‹_›] at h
    · have hneg : -((-n).toNat : Int) = n := by omega
      have h := Integer.negative (n := (-n).toNat) (whole_iff.mpr rfl) (by omega)
        (by rwa [hneg])
      rwa [hneg] at h

end Numerals

section Strings

/-- A hexadecimal digit, in either case. -/
inductive HexDigit : Char → Nat → Prop where
  | digit {c : Char} : '0' ≤ c → c ≤ '9' → HexDigit c (c.toNat - '0'.toNat)
  | lower {c : Char} : 'a' ≤ c → c ≤ 'f' → HexDigit c (c.toNat - 'a'.toNat + 10)
  | upper {c : Char} : 'A' ≤ c → c ≤ 'F' → HexDigit c (c.toNat - 'A'.toNat + 10)

/-- Four hexadecimal digits. -/
def Code (s : List Char) (n : Nat) : Prop :=
  s.length = 4 ∧ ∃ values, List.Forall₂ HexDigit s values ∧
    n = values.foldl (fun n value => 16 * n + value) 0

/-- What is between the quotes of a string, if nobody asks what it says. -/
inductive Chars : List Char → Prop where
  | nil : Chars []
  | plain {c : Char} {s : List Char} : 32 ≤ c.toNat → c ≠ '"' → c ≠ '\\' → Chars s → Chars (c :: s)
  | named {c d : Char} {s : List Char} : named? c = some d → Chars s → Chars ('\\' :: c :: s)
  | coded {code s : List Char} {n : Nat} : Code code n → Chars s →
      Chars ('\\' :: 'u' :: (code ++ s))

/-- What follows a backslash and a `u`, and the character that it stands for. -/
inductive Escape : List Char → Char → Prop where
  | one {code : List Char} {c : Char} : Code code c.toNat → Escape code c
  | two {first second : List Char} {lead trail : Nat} {c : Char} : Code first lead →
      Code second trail → isLeading lead = true → isTrailing trail = true →
      c.toNat = 0x10000 + (lead - 0xD800) * 0x400 + (trail - 0xDC00) →
      Escape (first ++ '\\' :: 'u' :: second) c

/-- What is between the quotes of a string, and the characters that it says. -/
inductive Spells : List Char → List Char → Prop where
  | nil : Spells [] []
  | plain {c : Char} {s t : List Char} : 32 ≤ c.toNat → c ≠ '"' → c ≠ '\\' → Spells s t →
      Spells (c :: s) (c :: t)
  | named {c d : Char} {s t : List Char} : named? c = some d → Spells s t →
      Spells ('\\' :: c :: s) (d :: t)
  | coded {code s t : List Char} {c : Char} : Escape code c → Spells s t →
      Spells ('\\' :: 'u' :: (code ++ s)) (c :: t)

variable {s rest : List Char}

/-- The order of characters is that of their numbers. -/
theorem le_iff_toNat_le {c d : Char} : c ≤ d ↔ c.toNat ≤ d.toNat := by
  rw [Char.le_def, UInt32.le_iff_toNat_le, Char.toNat_val, Char.toNat_val]

theorem HexDigit.lt {c : Char} {value : Nat} (h : HexDigit c value) : value < 16 := by
  cases h with
  | digit _ hhigh =>
      have h9 : c.toNat ≤ 57 := le_iff_toNat_le.mp hhigh
      have h0 : '0'.toNat = 48 := rfl
      omega
  | lower _ hhigh =>
      have hf : c.toNat ≤ 102 := le_iff_toNat_le.mp hhigh
      have ha : 'a'.toNat = 97 := rfl
      omega
  | upper _ hhigh =>
      have hf : c.toNat ≤ 70 := le_iff_toNat_le.mp hhigh
      have ha : 'A'.toNat = 65 := rfl
      omega

/-- The digits are told apart by their ranges, which do not meet. -/
theorem hexDigit_step_iff {n m : Nat} {c : Char} :
    (if '0' ≤ c ∧ c ≤ '9' then some (16 * n + (c.toNat - '0'.toNat))
      else if 'a' ≤ c ∧ c ≤ 'f' then some (16 * n + (c.toNat - 'a'.toNat + 10))
      else if 'A' ≤ c ∧ c ≤ 'F' then some (16 * n + (c.toNat - 'A'.toNat + 10))
      else none) = some m ↔ ∃ value, HexDigit c value ∧ m = 16 * n + value := by
  constructor
  · intro h
    split at h
    · rename_i hc
      exact ⟨_, .digit hc.1 hc.2, (Option.some.inj h).symm⟩
    · split at h
      · rename_i hc
        exact ⟨_, .lower hc.1 hc.2, (Option.some.inj h).symm⟩
      · split at h
        · rename_i hc
          exact ⟨_, .upper hc.1 hc.2, (Option.some.inj h).symm⟩
        · exact nomatch h
  · rintro ⟨value, hvalue, rfl⟩
    -- The three ranges of digits do not overlap.
    have hle : ∀ {a b : Char}, a ≤ c → c ≤ b → a.toNat ≤ b.toNat := fun ha hb =>
      Nat.le_trans (le_iff_toNat_le.mp ha) (le_iff_toNat_le.mp hb)
    cases hvalue with
    | digit hlow hhigh => rw [if_pos ⟨hlow, hhigh⟩]
    | lower hlow hhigh =>
        rw [if_neg fun hc => absurd (hle hlow hc.2) (by decide), if_pos ⟨hlow, hhigh⟩]
    | upper hlow hhigh =>
        rw [if_neg fun hc => absurd (hle hlow hc.2) (by decide),
          if_neg fun hc => absurd (hle hc.1 hhigh) (by decide), if_pos ⟨hlow, hhigh⟩]

/-- The number of some digits, when others have been read before. -/
theorem foldlM_hexDigit {step : Nat → Char → Option Nat}
    (hstep : ∀ n c m, step n c = some m ↔ ∃ value, HexDigit c value ∧ m = 16 * n + value)
    {start n : Nat} : s.foldlM step start = some n ↔ ∃ values, List.Forall₂ HexDigit s values ∧
      n = values.foldl (fun n value => 16 * n + value) start := by
  induction s generalizing start with
  | nil => simp [eq_comm]
  | cons c s ih =>
      rw [List.foldlM_cons]
      constructor
      · intro h
        rcases Option.bind_eq_some_iff.mp h with ⟨m, hm, hrest⟩
        rcases (hstep _ _ _).mp hm with ⟨value, hvalue, rfl⟩
        rcases ih.mp hrest with ⟨values, hvalues, rfl⟩
        exact ⟨value :: values, .cons hvalue hvalues, rfl⟩
      · rintro ⟨_, hvalues, rfl⟩
        cases hvalues with
        | cons hvalue hvalues =>
            exact Option.bind_eq_some_iff.mpr
              ⟨_, (hstep _ _ _).mpr ⟨_, hvalue, rfl⟩, ih.mpr ⟨_, hvalues, rfl⟩⟩

theorem hex4?_eq_some_iff {a b c d : Char} {n : Nat} :
    hex4? a b c d = some n ↔ Code [a, b, c, d] n := by
  unfold hex4? Code
  rw [foldlM_hexDigit fun _ _ _ => hexDigit_step_iff]
  exact (and_iff_right rfl).symm

theorem exists_of_code {code : List Char} {n : Nat} (h : Code code n) :
    ∃ a b c d, code = [a, b, c, d] := by
  have hlen := h.1
  match code, hlen with
  | [a, b, c, d], _ => exact ⟨a, b, c, d, rfl⟩

theorem Code.lt {code : List Char} {n : Nat} (h : Code code n) : n < 65536 := by
  rcases exists_of_code h with ⟨a, b, c, d, rfl⟩
  rcases h with ⟨_, _, hvalues, rfl⟩
  cases hvalues with
  | cons ha hvalues =>
    cases hvalues with
    | cons hb hvalues =>
      cases hvalues with
      | cons hc hvalues =>
        cases hvalues with
        | cons hd hvalues =>
          cases hvalues
          have := ha.lt
          have := hb.lt
          have := hc.lt
          have := hd.lt
          simp only [List.foldl_cons, List.foldl_nil]
          omega

theorem skipString?_eq_some_iff :
    skipString? s = some rest ↔ ∃ raw, Chars raw ∧ s = raw ++ '"' :: rest := by
  constructor
  · intro h
    fun_induction skipString? s with
    | case1 => exact nomatch h
    | case2 after => exact ⟨[], .nil, by rw [Option.some.inj h]; rfl⟩
    | case3 a b c d after hcode ih =>
        rcases ih h with ⟨raw, hraw, rfl⟩
        rcases Option.isSome_iff_exists.mp hcode with ⟨n, hn⟩
        exact ⟨_, .coded (hex4?_eq_some_iff.mp hn) hraw, rfl⟩
    | case4 => exact nomatch h
    | case5 c after _ hnamed ih =>
        rcases ih h with ⟨raw, hraw, rfl⟩
        rcases Option.isSome_iff_exists.mp hnamed with ⟨d, hd⟩
        exact ⟨_, .named hd hraw, rfl⟩
    | case6 => exact nomatch h
    | case7 => exact nomatch h
    | case8 c after hquote _ _ hc ih =>
        rcases ih h with ⟨raw, hraw, rfl⟩
        rw [not_or, Nat.not_lt] at hc
        exact ⟨c :: raw, .plain hc.1 (by rintro rfl; exact hquote rfl) hc.2 hraw, rfl⟩
  · rintro ⟨raw, hraw, rfl⟩
    induction hraw with
    | nil => rfl
    | plain hlow hquote hslash _ ih =>
        -- Neither the quote nor the backslash, so the last equation of the reader applies.
        rw [List.cons_append, skipString?]
        · rw [if_neg (by simp [hslash, Nat.not_lt.mpr hlow]), ih]
        all_goals simp [hquote, hslash]
    | named hd _ ih =>
        rw [List.cons_append, List.cons_append, skipString?]
        · rw [hd, ih]
          rfl
        · -- No letter of the table is the one that begins a code.
          rintro _ _ _ _ _ rfl _
          simp [named?] at hd
    | coded hcode _ ih =>
        rcases exists_of_code hcode with ⟨a, b, c, d, rfl⟩
        simp [skipString?, hex4?_eq_some_iff.mpr hcode, ih]

theorem toNat_ofNat_of_lt {n : Nat} (h : n < 0xD800 ∨ 0xDFFF < n) (hlt : n < 0x110000) :
    (Char.ofNat n).toNat = n := by
  have hvalid : n.isValidChar := by
    unfold Nat.isValidChar
    omega
  rw [Char.ofNat, dif_pos hvalid]
  rfl

theorem isLeading_iff {n : Nat} : isLeading n = true ↔ 0xD800 ≤ n ∧ n ≤ 0xDBFF := by
  rw [isLeading, Bool.and_eq_true, decide_eq_true_eq, decide_eq_true_eq]

theorem isTrailing_iff {n : Nat} : isTrailing n = true ↔ 0xDC00 ≤ n ∧ n ≤ 0xDFFF := by
  rw [isTrailing, Bool.and_eq_true, decide_eq_true_eq, decide_eq_true_eq]

theorem escaped?_sound {c : Char} (h : escaped? s = some (c, rest)) :
    ∃ code, Escape code c ∧ s = code ++ rest := by
  unfold escaped? at h
  split at h
  · rename_i x₁ x₂ x₃ x₄ after
    rcases Option.bind_eq_some_iff.mp h with ⟨n, hn, h⟩
    have hcode := hex4?_eq_some_iff.mp hn
    have hlt := hcode.lt
    split at h
    · exact nomatch h
    · rename_i htrailing
      rw [isTrailing_iff] at htrailing
      split at h
      · rename_i hleading
        split at h
        · rename_i y₁ y₂ y₃ y₄ after'
          rcases Option.bind_eq_some_iff.mp h with ⟨m, hm, h⟩
          split at h
          · rename_i htrail
            simp only [Option.some.injEq, Prod.mk.injEq] at h
            rcases h with ⟨rfl, rfl⟩
            refine ⟨_, .two hcode (hex4?_eq_some_iff.mp hm) hleading htrail ?_, rfl⟩
            rw [isLeading_iff] at hleading
            rw [isTrailing_iff] at htrail
            exact toNat_ofNat_of_lt (by omega) (by omega)
          · exact nomatch h
        · exact nomatch h
      · -- The number is not that of a half, so there is a character with it.
        rename_i hleading
        simp only [Option.some.injEq, Prod.mk.injEq] at h
        rcases h with ⟨rfl, rfl⟩
        rw [isLeading_iff] at hleading
        have hback : (Char.ofNat n).toNat = n := toNat_ofNat_of_lt (by omega) (by omega)
        exact ⟨_, .one (by rw [hback]; exact hcode), rfl⟩
  · exact nomatch h

theorem escaped?_append {code : List Char} {c : Char} (h : Escape code c) (rest : List Char) :
    escaped? (code ++ rest) = some (c, rest) := by
  cases h with
  | one hcode =>
      rcases exists_of_code hcode with ⟨x₁, x₂, x₃, x₄, rfl⟩
      -- No character has the number of a half.
      have hvalid : c.toNat < 0xD800 ∨ 0xDFFF < c.toNat ∧ c.toNat < 0x110000 := c.valid
      have htrailing : ¬ isTrailing c.toNat = true := fun h => by
        rw [isTrailing_iff] at h
        omega
      have hleading : ¬ isLeading c.toNat = true := fun h => by
        rw [isLeading_iff] at h
        omega
      simp [escaped?, hex4?_eq_some_iff.mpr hcode, htrailing, hleading]
  | @two first second lead trail c hfirst hsecond hleading htrailing hc =>
      rcases exists_of_code hfirst with ⟨x₁, x₂, x₃, x₄, rfl⟩
      rcases exists_of_code hsecond with ⟨y₁, y₂, y₃, y₄, rfl⟩
      have hnot : ¬ isTrailing lead = true := fun h => by
        rw [isLeading_iff] at hleading
        rw [isTrailing_iff] at h
        omega
      simp [escaped?, hex4?_eq_some_iff.mpr hfirst, hex4?_eq_some_iff.mpr hsecond, hnot, hleading,
        htrailing, ← hc]

theorem stringBody?_sound {fuel : Nat} {cs : List Char} (h : stringBody? fuel s = some (cs, rest)) :
    ∃ raw, Spells raw cs ∧ s = raw ++ '"' :: rest := by
  fun_induction stringBody? fuel s generalizing cs with
  | case1 => exact nomatch h
  | case2 => exact nomatch h
  | case3 fuel after =>
      simp only [Option.some.injEq, Prod.mk.injEq] at h
      rcases h with ⟨rfl, rfl⟩
      exact ⟨[], .nil, rfl⟩
  -- A code may take two escapes, so the rest begins where its reader has stopped.
  | case4 fuel after ih =>
      rcases Option.bind_eq_some_iff.mp h with ⟨⟨c, left⟩, hc, h⟩
      rcases Option.bind_eq_some_iff.mp h with ⟨⟨ds, left'⟩, hds, h⟩
      cases h
      rcases escaped?_sound hc with ⟨code, hcode, rfl⟩
      rcases ih _ hds with ⟨raw, hraw, rfl⟩
      exact ⟨_, .coded hcode hraw, by simp⟩
  | case5 fuel c after _ ih =>
      rcases Option.bind_eq_some_iff.mp h with ⟨d, hd, h⟩
      rcases Option.bind_eq_some_iff.mp h with ⟨⟨ds, left⟩, hds, h⟩
      cases h
      rcases ih hds with ⟨raw, hraw, rfl⟩
      exact ⟨_, .named hd hraw, rfl⟩
  | case6 => exact nomatch h
  | case7 fuel c after hquote _ _ _ hc =>
      rename_i ih
      rcases Option.bind_eq_some_iff.mp h with ⟨⟨ds, left⟩, hds, h⟩
      cases h
      rcases ih hds with ⟨raw, hraw, rfl⟩
      rw [not_or, Nat.not_lt] at hc
      exact ⟨c :: raw, .plain hc.1 hquote hc.2 hraw, rfl⟩

theorem stringBody?_append {raw cs : List Char} (h : Spells raw cs) {fuel : Nat}
    (hfuel : raw.length < fuel) (rest : List Char) :
    stringBody? fuel (raw ++ '"' :: rest) = some (cs, rest) := by
  -- Whatever the first part takes, it takes one step and one character at least.
  induction h generalizing fuel with
  | nil =>
      cases fuel with
      | zero => exact absurd hfuel (Nat.not_lt_zero _)
      | succ fuel => rfl
  | plain hlow hquote hslash _ ih =>
      cases fuel with
      | zero => exact absurd hfuel (Nat.not_lt_zero _)
      | succ fuel =>
          rw [List.length_cons, Nat.add_lt_add_iff_right] at hfuel
          rw [List.cons_append, stringBody?]
          · rw [if_neg (by simp [hslash, Nat.not_lt.mpr hlow]), ih hfuel]
            rfl
          all_goals simp [hquote, hslash]
  | named hd _ ih =>
      cases fuel with
      | zero => exact absurd hfuel (Nat.not_lt_zero _)
      | succ fuel =>
          simp only [List.length_cons] at hfuel
          rw [List.cons_append, List.cons_append, stringBody?]
          · rw [hd, ih (by omega)]
            rfl
          · rintro rfl
            simp [named?] at hd
  | coded hcode _ ih =>
      cases fuel with
      | zero => exact absurd hfuel (Nat.not_lt_zero _)
      | succ fuel =>
          -- An escape is longer than the step that it takes.
          simp only [List.length_cons, List.length_append] at hfuel
          rw [List.cons_append, List.cons_append, List.append_assoc, stringBody?,
            escaped?_append hcode]
          have hbody := ih (show _ < fuel by omega)
          simp [hbody]

end Strings

section Names

/-- A string with its quotes. -/
def Quoted (P : List Char → Prop) (s : List Char) : Prop :=
  ∃ raw, P raw ∧ s = '"' :: (raw ++ ['"'])

variable {s rest : List Char}

theorem quoted_key_iff {P : List Char → Prop} :
    (∃ key, Padded (Quoted P) key ∧ s = key ++ ':' :: rest) ↔
      ∃ before raw after, Space before ∧ P raw ∧ Space after ∧
        s = before ++ '"' :: (raw ++ '"' :: (after ++ ':' :: rest)) := by
  constructor
  · rintro ⟨_, ⟨before, _, after, hbefore, ⟨raw, hraw, rfl⟩, hafter, rfl⟩, rfl⟩
    exact ⟨before, raw, after, hbefore, hraw, hafter, by simp⟩
  · rintro ⟨before, raw, after, hbefore, hraw, hafter, rfl⟩
    exact ⟨_, ⟨before, _, after, hbefore, ⟨raw, hraw, rfl⟩, hafter, rfl⟩, by simp⟩

theorem name?_eq_some_iff {name : String} : name? s = some (name, rest) ↔
    ∃ raw after, Spells raw name.toList ∧ Space after ∧
      s = raw ++ '"' :: (after ++ ':' :: rest) := by
  unfold name?
  constructor
  · intro h
    rcases Option.bind_eq_some_iff.mp h with ⟨⟨cs, left⟩, hcs, h⟩
    rcases Option.bind_eq_some_iff.mp h with ⟨left', hcolon, h⟩
    cases h
    rcases stringBody?_sound hcs with ⟨raw, hraw, rfl⟩
    rcases (expect?_eq_some_iff (by decide)).mp hcolon with ⟨after, hafter, rfl⟩
    exact ⟨raw, after, by rwa [String.toList_ofList], hafter, rfl⟩
  · rintro ⟨raw, after, hraw, hafter, rfl⟩
    have hfuel : raw.length < (raw ++ '"' :: (after ++ ':' :: rest)).length + 1 := by
      rw [List.length_append]
      omega
    rw [stringBody?_append hraw hfuel]
    simp [expect?_append (c := ':') (by decide) hafter]

/-- A key whose name is known, and its colon. -/
theorem bind_name?_eq_some_iff {name : String} :
    (expect? '"' s).bind name? = some (name, rest) ↔
      ∃ key, Padded (Quoted (Spells · name.toList)) key ∧ s = key ++ ':' :: rest := by
  rw [quoted_key_iff]
  constructor
  · intro h
    rcases Option.bind_eq_some_iff.mp h with ⟨left, hquote, hname⟩
    rcases (expect?_eq_some_iff (by decide)).mp hquote with ⟨before, hbefore, rfl⟩
    rcases name?_eq_some_iff.mp hname with ⟨raw, after, hraw, hafter, rfl⟩
    exact ⟨before, raw, after, hbefore, hraw, hafter, rfl⟩
  · rintro ⟨before, raw, after, hbefore, hraw, hafter, rfl⟩
    exact Option.bind_eq_some_iff.mpr ⟨_, (expect?_eq_some_iff (by decide)).mpr ⟨_, hbefore, rfl⟩,
      name?_eq_some_iff.mpr ⟨_, _, hraw, hafter, rfl⟩⟩

/-- A key that is passed over, and its colon. -/
theorem bind_skipString?_eq_some_iff :
    ((expect? '"' s).bind skipString?).bind (expect? ':') = some rest ↔
      ∃ key, Padded (Quoted Chars) key ∧ s = key ++ ':' :: rest := by
  rw [quoted_key_iff]
  constructor
  · intro h
    rcases Option.bind_eq_some_iff.mp h with ⟨left, h, hcolon⟩
    rcases Option.bind_eq_some_iff.mp h with ⟨left', hquote, hstring⟩
    rcases (expect?_eq_some_iff (by decide)).mp hquote with ⟨before, hbefore, rfl⟩
    rcases skipString?_eq_some_iff.mp hstring with ⟨raw, hraw, rfl⟩
    rcases (expect?_eq_some_iff (by decide)).mp hcolon with ⟨after, hafter, rfl⟩
    exact ⟨before, raw, after, hbefore, hraw, hafter, rfl⟩
  · rintro ⟨before, raw, after, hbefore, hraw, hafter, rfl⟩
    refine Option.bind_eq_some_iff.mpr ⟨_, Option.bind_eq_some_iff.mpr ⟨_,
      (expect?_eq_some_iff (by decide)).mpr ⟨_, hbefore, rfl⟩,
      skipString?_eq_some_iff.mpr ⟨_, hraw, rfl⟩⟩,
      (expect?_eq_some_iff (by decide)).mpr ⟨_, hafter, rfl⟩⟩

end Names

end Json

end OutboxCluster
