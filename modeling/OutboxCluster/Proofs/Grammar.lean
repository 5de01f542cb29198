import Mathlib.Data.List.Forall2
import OutboxCluster.Proofs.Token

/-!
# Values of JSON Text

What the readers of values accept. The readers go through a text with fuel and pass over white
space wherever they meet it; a grammar has neither. So there are two things to show of each
reader, and both are predicates on readers, which are proved once for a list of whatever items
(`list?`) and hold of arrays, of objects, of integers and of values that nobody asked for.

`Sound` says that what is taken is in the grammar. `Takes` is the other direction. It does not
name what is left, because some readers stop right behind a value and others read on to the
next token. They agree up to white space, and that is all that the next reader notices.

The fuel is the length of what is still to be read, and a few steps more. It suffices because
whatever a value consists of is shorter than the value.

## Main definitions

* `Json.Takes`, `Json.Sound`: The two directions.
* `Json.list?`: The reader of a list.
* `Json.Value`: A value of any kind.
* `Json.Integers`: An array of integers.
* `Json.integersText`: How integers are written.

## Theorems

* `list?_sound`, `list?_append`: A list is read as its items are.
* `skipValue?_sound`, `takes_value`: A value that nobody asked for.
* `integer?_sound`, `takes_integer`, `integers?_sound`, `takes_integers`: Integers, and arrays
  of them.
* `Integers.eq_integersText`: Without white space, integers are written in one way.
-/

namespace OutboxCluster

namespace Json

section Lists

variable {α : Type}

/-- A reader takes a text for `a` and leaves what follows, up to white space. -/
def Takes (read : List Char → Option (α × List Char)) (text : List Char) (a : α) : Prop :=
  ∀ rest, Stops rest →
    ∃ left, read (text ++ rest) = some (a, left) ∧ skipSpace left = skipSpace rest

/-- What a reader takes are texts that say so. -/
def Sound (Says : List Char → α → Prop) (read : List Char → Option (α × List Char)) : Prop :=
  ∀ s a rest, read s = some (a, rest) → ∃ text, Says text a ∧ s = text ++ rest

/-- Items with commas between them. -/
def joined (items : List (List Char)) : List Char := [','].intercalate items

/-- The items of a list, and what follows the character that closes it. -/
def list? (close : Char) (read : Nat → List Char → Option (α × List Char)) :
    Nat → List Char → Option (List α × List Char)
  | 0, _ => none
  | fuel + 1, s =>
    match read fuel s with
    | none => none
    | some (a, rest) =>
      match skipSpace rest with
      | [] => none
      | c :: rest =>
        if c = ',' then (list? close read fuel rest).map fun (as, rest) => (a :: as, rest)
        else if c = close then some ([a], rest)
        else none

variable {Says : List Char → α → Prop} {close : Char}
  {read : Nat → List Char → Option (α × List Char)} {fuel : Nat} {s rest : List Char}

theorem joined_singleton (item : List Char) : joined [item] = item :=
  List.intercalate_singleton

theorem joined_cons (item : List Char) {items : List (List Char)} (h : items ≠ []) :
    joined (item :: items) = item ++ ',' :: joined items := by
  rw [joined, List.intercalate_cons_of_ne_nil h, List.append_assoc]
  rfl

theorem not_isSpace_close (h : close = ']' ∨ close = '\x7d') : ¬ IsSpace close := by
  rcases h with rfl | rfl <;> decide

/-- What a list is read from: items that say so, with commas between them. White space after
    an item counts as a part of it. -/
theorem list?_sound {as : List α}
    (hread : ∀ f < fuel, Sound Says (read f))
    (hspace : ∀ text a w, Says text a → Space w → Says (text ++ w) a)
    (hclose : close = ']' ∨ close = '\x7d') (h : list? close read fuel s = some (as, rest)) :
    ∃ items, items ≠ [] ∧ List.Forall₂ Says items as ∧ s = joined items ++ close :: rest := by
  induction fuel generalizing s as with
  | zero => exact nomatch h
  | succ fuel ih =>
      unfold list? at h
      split at h
      · exact nomatch h
      · rename_i a left hitem
        rcases hread fuel (Nat.lt_succ_self fuel) s a left hitem with ⟨text, htext, rfl⟩
        split at h
        · exact nomatch h
        · -- What was skipped in front of the comma, or of the end, goes to the item.
          rename_i c more hmore
          by_cases hcomma : c = ','
          · rw [if_pos hcomma] at h
            rw [hcomma, skipSpace_eq_cons_iff (by decide)] at hmore
            rcases hmore with ⟨w, hw, rfl⟩
            rcases Option.map_eq_some_iff.mp h with ⟨⟨as, left⟩, hrest, heq⟩
            cases heq
            rcases ih (fun f hf => hread f (Nat.lt_succ_of_lt hf)) hrest with
              ⟨items, hne, hitems, rfl⟩
            refine ⟨(text ++ w) :: items, List.cons_ne_nil _ _,
              .cons (hspace _ _ _ htext hw) hitems, ?_⟩
            simp [joined_cons _ hne]
          · rw [if_neg hcomma] at h
            by_cases hc : c = close
            · rw [if_pos hc] at h
              rw [hc, skipSpace_eq_cons_iff (not_isSpace_close hclose)] at hmore
              rcases hmore with ⟨w, hw, rfl⟩
              cases h
              exact ⟨[text ++ w], List.cons_ne_nil _ _, .cons (hspace _ _ _ htext hw) .nil,
                by simp [joined_singleton]⟩
            · rw [if_neg hc] at h
              exact nomatch h

theorem stops_cons {c : Char} (hc : c.isDigit = false ∧ c ≠ '.' ∧ c ≠ 'e' ∧ c ≠ 'E')
    (s : List Char) : Stops (c :: s) := by
  intro d hd
  rw [List.head?_cons, Option.mem_some_iff] at hd
  exact hd ▸ hc

/-- A list of items that are taken is read. Each of them takes one step, and its comma is one
    more character. -/
theorem list?_append {items : List (List Char)} {as : List α} (hne : items ≠ [])
    (hitems : List.Forall₂
      (fun item a => ∀ f, item.length ≤ f → Takes (read (f + 1)) item a) items as)
    (hclose : close = ']' ∨ close = '\x7d') (hfuel : (joined items).length ≤ fuel)
    (rest : List Char) :
    list? close read (fuel + 2) (joined items ++ close :: rest) = some (as, rest) := by
  have hcomma : close ≠ ',' := by
    rcases hclose with rfl | rfl <;> decide
  have hstops : Stops (close :: rest) := by
    rcases hclose with rfl | rfl <;> exact stops_cons (by decide) rest
  induction hitems generalizing fuel with
  | nil => exact absurd rfl hne
  | @cons item a items as hitem hitems ih =>
      cases items with
      | nil =>
          cases hitems
          rw [joined_singleton] at hfuel ⊢
          rcases hitem fuel hfuel _ hstops with ⟨left, hread, hleft⟩
          rw [skipSpace_cons (not_isSpace_close hclose)] at hleft
          simp [list?, hread, hleft, hcomma]
      | cons next more =>
          have hmore : next :: more ≠ [] := List.cons_ne_nil _ _
          rw [joined_cons _ hmore, List.length_append, List.length_cons] at hfuel
          rw [joined_cons _ hmore, List.append_assoc, List.cons_append]
          -- The comma alone makes sure that there is fuel for another step.
          obtain ⟨fuel, rfl⟩ : ∃ f, fuel = f + 1 := ⟨fuel - 1, by omega⟩
          rcases hitem (fuel + 1) (by omega) (',' :: (joined (next :: more) ++ close :: rest))
            (stops_cons (by decide) _) with ⟨left, hread, hleft⟩
          rw [skipSpace_cons (by decide)] at hleft
          have hrest := ih hmore (show _ ≤ fuel by omega)
          rw [list?, hread]
          simp [hleft, hrest]

end Lists

section Values

/-- A value of any kind, with white space around it. -/
inductive Value : List Char → Prop where
  | space {before text after : List Char} : Space before → Value text → Space after →
      Value (before ++ text ++ after)
  | string {text : List Char} : Quoted Chars text → Value text
  | number {text : List Char} : Number text → Value text
  | negative {text : List Char} : Number text → Value ('-' :: text)
  | word {text : List Char} : text ∈ ["null".toList, "true".toList, "false".toList] → Value text
  | emptyArray {inner : List Char} : Space inner → Value ('[' :: (inner ++ [']']))
  | array {items : List (List Char)} : items ≠ [] → (∀ item ∈ items, Value item) →
      Value ('[' :: (joined items ++ [']']))
  | emptyObject {inner : List Char} : Space inner → Value ('\x7b' :: (inner ++ ['\x7d']))
  | object {fields : List (List Char × List Char)} : fields ≠ [] →
      (∀ f ∈ fields, Padded (Quoted Chars) f.1) → (∀ f ∈ fields, Value f.2) →
      Value ('\x7b' :: (joined (fields.map fun f => f.1 ++ ':' :: f.2) ++ ['\x7d']))

variable {s rest text : List Char} {fuel : Nat}

/-- A reader that says nothing about what it has passed over. -/
def passing (skip : List Char → Option (List Char)) (s : List Char) : Option (Unit × List Char) :=
  (skip s).map fun rest => ((), rest)

/-- What follows a field that nobody asked for. -/
def skipField? (fuel : Nat) (s : List Char) : Option (List Char) :=
  (((expect? '"' s).bind skipString?).bind (expect? ':')).bind (skipValue? fuel)

theorem skipItems?_eq (fuel : Nat) (s : List Char) : skipItems? fuel s =
    (list? ']' (fun f => passing (skipValue? f)) fuel s).map (·.2) := by
  induction fuel generalizing s with
  | zero => rfl
  | succ fuel ih =>
      rw [skipItems?, list?, passing]
      cases skipValue? fuel s with
      | none => rfl
      | some rest =>
          simp only [Option.map_some]
          rcases skipSpace rest with _ | ⟨c, more⟩
          · rfl
          · by_cases hcomma : c = ','
            · simp [hcomma, ih, Function.comp_def]
            · by_cases hclose : c = ']' <;> simp [hcomma, hclose]

theorem skipFields?_eq (fuel : Nat) (s : List Char) : skipFields? fuel s =
    (list? '\x7d' (fun f => passing (skipField? f)) fuel s).map (·.2) := by
  induction fuel generalizing s with
  | zero => rfl
  | succ fuel ih =>
      rw [skipFields?, list?, passing, skipField?]
      cases expect? '"' s with
      | none => rfl
      | some afterQuote =>
          simp only [Option.bind_some]
          cases (skipString? afterQuote).bind (expect? ':') with
          | none => rfl
          | some afterKey =>
              simp only [Option.bind_some]
              cases skipValue? fuel afterKey with
              | none => rfl
              | some rest =>
                  simp only [Option.map_some]
                  rcases skipSpace rest with _ | ⟨c, more⟩
                  · rfl
                  · by_cases hcomma : c = ','
                    · simp [hcomma, ih, Function.comp_def]
                    · by_cases hclose : c = '\x7d' <;> simp [hcomma, hclose]

theorem skipWord?_eq_some_iff {word : List Char} :
    skipWord? word s = some rest ↔ s = word ++ rest := by
  induction word generalizing s with
  | nil => simp [skipWord?]
  | cons c word ih =>
      cases s with
      | nil => simp [skipWord?]
      | cons d s =>
          by_cases hd : d = c <;> simp [skipWord?, hd, ih]

theorem sound_passing {skip : List Char → Option (List Char)} {P : List Char → Prop} :
    Sound (fun text _ => P text) (passing skip) ↔
      ∀ s rest, skip s = some rest → ∃ text, P text ∧ s = text ++ rest := by
  unfold Sound passing
  constructor
  · intro h s rest hskip
    exact h s () rest (by rw [hskip]; rfl)
  · intro h s a rest hskip
    rcases Option.map_eq_some_iff.mp hskip with ⟨_, hskip, heq⟩
    cases heq
    exact h s _ hskip

theorem space_nil : Space [] := fun _ hc => absurd hc List.not_mem_nil

theorem Value.append {w : List Char} (h : Value text) (hw : Space w) : Value (text ++ w) :=
  show Value ([] ++ text ++ w) from .space space_nil h hw

/-- A field of an object whose value is of any kind. -/
def Member (s : List Char) : Prop :=
  ∃ key value, Padded (Quoted Chars) key ∧ Value value ∧ s = key ++ ':' :: value

theorem Member.append {w : List Char} (h : Member text) (hw : Space w) : Member (text ++ w) := by
  rcases h with ⟨key, value, hkey, hvalue, rfl⟩
  exact ⟨key, value ++ w, hkey, hvalue.append hw, by simp⟩

/-- A field is known by its key and its value. -/
theorem Value.of_fields {items : List (List Char)} (hne : items ≠ [])
    (h : ∀ item ∈ items, Member item) : Value ('\x7b' :: (joined items ++ ['\x7d'])) := by
  have hpairs : ∃ fields : List (List Char × List Char),
      (∀ f ∈ fields, Padded (Quoted Chars) f.1 ∧ Value f.2) ∧
      items = fields.map fun f => f.1 ++ ':' :: f.2 := by
    clear hne
    induction items with
    | nil => exact ⟨[], by simp, rfl⟩
    | cons item items ih =>
        rcases h item List.mem_cons_self with ⟨key, value, hkey, hvalue, rfl⟩
        rcases ih fun i hi => h i (List.mem_cons_of_mem _ hi) with ⟨fields, hfields, rfl⟩
        exact ⟨(key, value) :: fields, List.forall_mem_cons.mpr ⟨⟨hkey, hvalue⟩, hfields⟩, rfl⟩
  rcases hpairs with ⟨fields, hfields, rfl⟩
  exact .object (by simpa using hne) (fun f hf => (hfields f hf).1) fun f hf => (hfields f hf).2

theorem forall_of_forall₂ {α β : Type} {R : α → β → Prop} {P : α → Prop} {as : List α} {bs : List β}
    (h : List.Forall₂ R as bs) (hP : ∀ a b, R a b → P a) : ∀ a ∈ as, P a :=
  ((List.forall₂_and_left as bs).mp (h.imp fun a b hab => ⟨hP a b hab, hab⟩)).1

/-- A list that was passed over. -/
theorem skipList?_sound {close : Char} {P : List Char → Prop}
    {skip : Nat → List Char → Option (List Char)}
    (hskip : ∀ f < fuel, Sound (fun text _ => P text) (passing (skip f)))
    (hspace : ∀ text w, P text → Space w → P (text ++ w)) (hclose : close = ']' ∨ close = '\x7d')
    (h : (list? close (fun f => passing (skip f)) fuel s).map (·.2) = some rest) :
    ∃ items, items ≠ [] ∧ (∀ item ∈ items, P item) ∧ s = joined items ++ close :: rest := by
  rcases Option.map_eq_some_iff.mp h with ⟨⟨as, left⟩, hlist, rfl⟩
  rcases list?_sound hskip (fun text _ w => hspace text w) hclose hlist with
    ⟨items, hne, hitems, hs⟩
  exact ⟨items, hne, forall_of_forall₂ hitems fun _ _ h => h, hs⟩

theorem skipField?_sound (h : Sound (fun text _ => Value text) (passing (skipValue? fuel))) :
    Sound (fun text _ => Member text) (passing (skipField? fuel)) := by
  rw [sound_passing] at h ⊢
  intro s rest hskip
  rcases Option.bind_eq_some_iff.mp hskip with ⟨left, hleft, hright⟩
  rcases bind_skipString?_eq_some_iff.mp hleft with ⟨key, hkey, rfl⟩
  rcases h _ _ hright with ⟨value, hvalue, rfl⟩
  exact ⟨_, ⟨key, value, hkey, hvalue, rfl⟩, by simp⟩

@[simp] theorem expect?_skipSpace (c : Char) (s : List Char) :
    expect? c (skipSpace s) = expect? c s := by
  rw [expect?, skipSpace_skipSpace, expect?]

@[simp] theorem skipValue?_skipSpace (fuel : Nat) (s : List Char) :
    skipValue? fuel (skipSpace s) = skipValue? fuel s := by
  cases fuel with
  | zero => rfl
  | succ fuel => simp only [skipValue?, skipSpace_skipSpace]

@[simp] theorem skipItems?_skipSpace (fuel : Nat) (s : List Char) :
    skipItems? fuel (skipSpace s) = skipItems? fuel s := by
  cases fuel with
  | zero => rfl
  | succ fuel => simp only [skipItems?, skipValue?_skipSpace]

@[simp] theorem skipFields?_skipSpace (fuel : Nat) (s : List Char) :
    skipFields? fuel (skipSpace s) = skipFields? fuel s := by
  cases fuel with
  | zero => rfl
  | succ fuel => simp only [skipFields?, expect?_skipSpace]

/-- No value begins with a bracket that closes. -/
theorem skipItems?_of_close (h : skipSpace s = ']' :: rest) : skipItems? fuel s = none := by
  rw [← skipItems?_skipSpace, h]
  match fuel with
  | 0 => rfl
  | 1 => rfl
  | fuel + 2 => rfl

theorem skipFields?_of_close (h : skipSpace s = '\x7d' :: rest) : skipFields? fuel s = none := by
  rw [← skipFields?_skipSpace, h]
  cases fuel <;> rfl

/-- What follows the bracket of an array. -/
theorem skipValue?_array {inner : List Char} (h : skipSpace s = '[' :: inner) :
    skipValue? (fuel + 1) s = some rest ↔
      (∃ w, Space w ∧ inner = w ++ ']' :: rest) ∨ skipItems? fuel inner = some rest := by
  rw [← skipSpace_eq_cons_iff (by decide)]
  simp only [skipValue?, h]
  split
  · rename_i left hclose
    rw [hclose, skipItems?_of_close hclose]
    simp
  · rename_i hopen
    rw [skipItems?_skipSpace]
    exact (or_iff_right fun hclose => hopen _ hclose).symm

theorem skipValue?_object {inner : List Char} (h : skipSpace s = '\x7b' :: inner) :
    skipValue? (fuel + 1) s = some rest ↔
      (∃ w, Space w ∧ inner = w ++ '\x7d' :: rest) ∨ skipFields? fuel inner = some rest := by
  rw [← skipSpace_eq_cons_iff (by decide)]
  simp only [skipValue?, h]
  split
  · rename_i left hclose
    rw [hclose, skipFields?_of_close hclose]
    simp
  · rename_i hopen
    rw [skipFields?_skipSpace]
    exact (or_iff_right fun hclose => hopen _ hclose).symm

/-- A value is in the grammar if those in it are, and they are read with less fuel. -/
theorem skipValue?_step
    (hless : ∀ f < fuel, Sound (fun text _ => Value text) (passing (skipValue? f)))
    (h : skipValue? (fuel + 1) s = some rest) :
    ∃ text, Value text ∧ skipSpace s = text ++ rest := by
  have hskip := h
  unfold skipValue? at h
  split at h
  · -- A string.
    rename_i heq
    rcases skipString?_eq_some_iff.mp h with ⟨raw, hraw, rfl⟩
    exact ⟨_, .string ⟨raw, hraw, rfl⟩, by simp [heq]⟩
  · -- An array, empty or not.
    rename_i inner heq
    rw [heq]
    rcases (skipValue?_array heq).mp hskip with ⟨w, hw, rfl⟩ | hitems
    · exact ⟨_, .emptyArray hw, by simp⟩
    · rw [skipItems?_eq] at hitems
      rcases skipList?_sound hless (fun _ _ => Value.append) (Or.inl rfl) hitems with
        ⟨items, hne, hvalues, rfl⟩
      exact ⟨_, .array hne hvalues, by simp⟩
  · -- An object, empty or not.
    rename_i inner heq
    rw [heq]
    rcases (skipValue?_object heq).mp hskip with ⟨w, hw, rfl⟩ | hitems
    · exact ⟨_, .emptyObject hw, by simp⟩
    · rw [skipFields?_eq] at hitems
      rcases skipList?_sound (fun f hf => skipField?_sound (hless f hf))
        (fun _ _ => Member.append) (Or.inr rfl) hitems with ⟨items, hne, hfields, rfl⟩
      exact ⟨_, .of_fields hne hfields, by simp⟩
  · -- The three words.
    rename_i heq
    rw [heq, skipWord?_eq_some_iff.mp h]
    exact ⟨['n', 'u', 'l', 'l'], .word (by decide), rfl⟩
  · rename_i heq
    rw [heq, skipWord?_eq_some_iff.mp h]
    exact ⟨['t', 'r', 'u', 'e'], .word (by decide), rfl⟩
  · rename_i heq
    rw [heq, skipWord?_eq_some_iff.mp h]
    exact ⟨['f', 'a', 'l', 's', 'e'], .word (by decide), rfl⟩
  · -- A number, with a sign or without.
    rename_i heq
    rcases skipNumber?_sound h with ⟨number, hnumber, rfl⟩
    exact ⟨_, .negative hnumber, heq⟩
  · rcases skipNumber?_sound h with ⟨number, hnumber, heq⟩
    exact ⟨_, .number hnumber, heq⟩

theorem skipValue?_sound (fuel : Nat) :
    Sound (fun text _ => Value text) (passing (skipValue? fuel)) := by
  induction fuel using Nat.strong_induction_on with
  | _ fuel ih =>
      rw [sound_passing]
      intro s rest h
      cases fuel with
      | zero => exact nomatch h
      | succ fuel =>
          rcases skipValue?_step (fun f hf => ih f (Nat.lt_succ_of_lt hf)) h with
            ⟨text, htext, heq⟩
          rcases exists_space s with ⟨w, hw, hs⟩
          exact ⟨w ++ text, by simpa using Value.space hw htext space_nil,
            by rw [List.append_assoc, ← heq, ← hs]⟩

theorem Stops.append {w : List Char} (hw : Space w) (hrest : Stops rest) : Stops (w ++ rest) := by
  cases w with
  | nil => exact hrest
  | cons c w =>
      refine stops_cons ?_ _
      rcases hw c List.mem_cons_self with rfl | rfl | rfl | rfl <;> decide

/-- White space around a text does not matter to a reader that passes over it. -/
theorem Takes.padded {α : Type} {read : List Char → Option (α × List Char)} {a : α}
    {before after : List Char} (h : Takes read text a)
    (hskip : ∀ s, read (before ++ s) = read s) (hafter : Space after) :
    Takes read (before ++ text ++ after) a := by
  intro rest hrest
  rcases h (after ++ rest) (hrest.append hafter) with ⟨left, hread, hleft⟩
  exact ⟨left, by simpa [hskip] using hread, by rw [hleft, skipSpace_append hafter]⟩

theorem takes_passing {skip : List Char → Option (List Char)} : Takes (passing skip) text () ↔
    ∀ rest, Stops rest →
      ∃ left, skip (text ++ rest) = some left ∧ skipSpace left = skipSpace rest := by
  simp [Takes, passing]

/-- Nothing is left of a text that is passed over. -/
theorem takes_of_skip {skip : List Char → Option (List Char)}
    (h : ∀ rest, Stops rest → skip (text ++ rest) = some rest) : Takes (passing skip) text () :=
  takes_passing.mpr fun rest hrest => ⟨rest, h rest hrest, rfl⟩

theorem takes_member {key value : List Char} (hkey : Padded (Quoted Chars) key)
    (hvalue : Takes (passing (skipValue? fuel)) value ()) :
    Takes (passing (skipField? fuel)) (key ++ ':' :: value) () := by
  rw [takes_passing] at hvalue ⊢
  intro rest hrest
  rcases hvalue rest hrest with ⟨left, hskip, hleft⟩
  refine ⟨left, ?_, hleft⟩
  rw [List.append_assoc, List.cons_append, skipField?,
    bind_skipString?_eq_some_iff.mpr ⟨key, hkey, rfl⟩]
  exact hskip

/-- A list of texts that are passed over is passed over. -/
theorem skipList?_append {close : Char} {skip : Nat → List Char → Option (List Char)}
    {items : List (List Char)} (hne : items ≠ [])
    (hitems : ∀ item ∈ items, ∀ f, item.length ≤ f → Takes (passing (skip (f + 1))) item ())
    (hclose : close = ']' ∨ close = '\x7d') (hfuel : (joined items).length ≤ fuel)
    (rest : List Char) :
    (list? close (fun f => passing (skip f)) (fuel + 2) (joined items ++ close :: rest)).map (·.2) =
      some rest := by
  have hforall : List.Forall₂
      (fun item a => ∀ f, item.length ≤ f → Takes (passing (skip (f + 1))) item a)
      items (items.map fun _ => ()) := by
    rw [List.forall₂_map_right_iff, List.forall₂_same]
    exact hitems
  rw [list?_append hne hforall hclose hfuel]
  rfl

theorem skipValue?_digit {c : Char} (hc : c.isDigit = true) (s : List Char) :
    skipValue? (fuel + 1) (c :: s) = skipNumber? (c :: s) := by
  simp only [skipValue?, skipSpace_cons (not_isSpace_of_isDigit hc)]
  split
  -- Every other value begins with a character that is no digit.
  all_goals first
    | rfl
    | rename_i heq
      rw [(List.cons.inj heq).1] at hc
      exact absurd hc (by decide)

theorem takes_value (h : Value text) : ∀ fuel, text.length ≤ fuel →
    Takes (passing (skipValue? (fuel + 1))) text () := by
  -- What a value consists of is shorter, and so is the fuel that it is read with.
  induction h with
  | space hbefore _ hafter ih =>
      intro fuel hfuel
      simp only [List.length_append] at hfuel
      refine (ih fuel (by omega)).padded (fun s => ?_) hafter
      rw [passing, ← skipValue?_skipSpace, skipSpace_append hbefore, skipValue?_skipSpace, passing]
  | string h =>
      rcases h with ⟨raw, hraw, rfl⟩
      refine fun fuel _ => takes_of_skip fun rest _ => ?_
      simp only [List.cons_append, skipValue?, skipSpace_cons (show ¬ IsSpace '"' by decide)]
      exact skipString?_eq_some_iff.mpr ⟨raw, hraw, by simp⟩
  | number h =>
      refine fun fuel _ => takes_of_skip fun rest hrest => ?_
      have hskip := skipNumber?_append h hrest
      rcases h with ⟨whole, n, f, e, hwhole, _, _, rfl⟩
      cases whole with
      | nil => exact absurd rfl hwhole.digits.ne_nil
      | cons c whole =>
          simp only [List.cons_append] at hskip ⊢
          rw [skipValue?_digit (hwhole.digits.isDigit c List.mem_cons_self), hskip]
  | negative h =>
      refine fun fuel _ => takes_of_skip fun rest hrest => ?_
      simp only [List.cons_append, skipValue?, skipSpace_cons (show ¬ IsSpace '-' by decide)]
      exact skipNumber?_append h hrest
  | word h =>
      refine fun fuel _ => takes_of_skip fun rest _ => ?_
      simp only [List.mem_cons, List.not_mem_nil, or_false] at h
      rcases h with rfl | rfl | rfl <;> rfl
  | emptyArray hinner =>
      refine fun fuel _ => takes_of_skip fun rest _ =>
        (skipValue?_array (skipSpace_cons (by decide) _)).mpr (Or.inl ⟨_, hinner, by simp⟩)
  | array hne _ ih =>
      intro fuel hfuel
      refine takes_of_skip fun rest _ =>
        (skipValue?_array (skipSpace_cons (by decide) _)).mpr (Or.inr ?_)
      simp only [List.length_cons, List.length_append, List.length_nil] at hfuel
      obtain ⟨fuel, rfl⟩ : ∃ f, fuel = f + 2 := ⟨fuel - 2, by omega⟩
      rw [skipItems?_eq]
      simpa using skipList?_append hne ih (Or.inl rfl) (by omega) rest
  | emptyObject hinner =>
      refine fun fuel _ => takes_of_skip fun rest _ =>
        (skipValue?_object (skipSpace_cons (by decide) _)).mpr (Or.inl ⟨_, hinner, by simp⟩)
  | @object fields hne hkeys _ ih =>
      intro fuel hfuel
      refine takes_of_skip fun rest _ =>
        (skipValue?_object (skipSpace_cons (by decide) _)).mpr (Or.inr ?_)
      simp only [List.length_cons, List.length_append, List.length_nil] at hfuel
      obtain ⟨fuel, rfl⟩ : ∃ f, fuel = f + 2 := ⟨fuel - 2, by omega⟩
      rw [skipFields?_eq]
      have hitems : ∀ item ∈ fields.map (fun p => p.1 ++ ':' :: p.2), ∀ f, item.length ≤ f →
          Takes (passing (skipField? (f + 1))) item () := by
        intro item hitem f hf
        rcases List.mem_map.mp hitem with ⟨p, hp, rfl⟩
        simp only [List.length_cons, List.length_append] at hf
        exact takes_member (hkeys p hp) (ih p hp f (by omega))
      simpa using skipList?_append (by simpa using hne) hitems (Or.inr rfl) (by omega) rest

end Values

section Integers

variable {s rest : List Char} {n : Int}

/-- The rest of an integer, once it is known whether it begins with a minus sign. -/
def unsigned? (negative : Bool) (s : List Char) : Option (Int × List Char) := do
  let (digits, rest) ← whole? s
  let magnitude ← Text.natural? digits
  let n : Int := if negative then -magnitude else magnitude
  if negative ∧ magnitude = 0 then none
  else if ! Text.fitsInt64 n then none
  else match rest with
    | '.' :: _ => none
    | 'e' :: _ => none
    | 'E' :: _ => none
    | rest => some (n, rest)

theorem integer?_eq (s : List Char) : integer? s = match skipSpace s with
    | '-' :: after => unsigned? true after
    | after => unsigned? false after := by
  unfold integer?
  generalize skipSpace s = s
  split
  rename_i negative after hsign
  split at hsign
  · cases hsign
    rfl
  · rename_i hminus
    cases hsign
    rcases s with _ | ⟨c, s⟩
    · rfl
    · have hc : c ≠ '-' := fun hc => hminus s (by rw [hc])
      simp only
      rfl

theorem unsigned?_eq_some_iff {negative : Bool} : unsigned? negative s = some (n, rest) ↔
    ∃ digits m, Whole digits m ∧ n = (if negative then -(m : Int) else m) ∧
      ¬ (negative = true ∧ m = 0) ∧ Text.fitsInt64 n = true ∧ Stops rest ∧ s = digits ++ rest := by
  constructor
  · intro h
    unfold unsigned? at h
    rcases Option.bind_eq_some_iff.mp h with ⟨⟨digits, left⟩, hwhole, hafter⟩
    rcases Option.bind_eq_some_iff.mp hafter with ⟨m, hm, hchecks⟩
    rcases whole?_eq_some_iff.mp hwhole with ⟨⟨m', hdigits⟩, hleft, rfl⟩
    -- The digits have one value only.
    have hvalue : m = m' := by
      rw [← (Text.natural?_eq_some_iff.mp hm).value, hdigits.digits.value]
    subst hvalue
    clear h hafter
    dsimp only at hchecks
    by_cases hzero : negative = true ∧ m = 0
    · simp [hzero] at hchecks
    · rw [if_neg hzero] at hchecks
      by_cases hfits : Text.fitsInt64 (if negative = true then -(m : Int) else m) = true
      · rw [if_neg (by rw [hfits]; decide)] at hchecks
        split at hchecks
        · exact nomatch hchecks
        · exact nomatch hchecks
        · exact nomatch hchecks
        · -- What follows is neither a digit nor the mark of a fraction or an exponent.
          rename_i hdot he hE
          cases hchecks
          refine ⟨digits, m, hdigits, rfl, hzero, hfits, fun c hc => ?_, rfl⟩
          rcases rest with _ | ⟨d, more⟩
          · exact nomatch hc
          · rw [List.head?_cons, Option.mem_some_iff] at hc
            subst hc
            exact ⟨hleft d rfl, fun h => hdot more (by rw [h]), fun h => he more (by rw [h]),
              fun h => hE more (by rw [h])⟩
      · rw [if_pos (by simpa using hfits)] at hchecks
        exact nomatch hchecks
  · rintro ⟨digits, m, hdigits, rfl, hzero, hfits, hrest, rfl⟩
    have hwhole := whole?_eq_some_iff.mpr ⟨⟨m, hdigits⟩, hrest.noDigit, rfl⟩
    have hm := Text.natural?_eq_some_iff.mpr hdigits.digits
    unfold unsigned?
    rw [hwhole]
    simp only [Option.bind_eq_bind, Option.bind_some, hm, if_neg hzero, hfits]
    rw [if_neg (by decide)]
    split
    · exact absurd rfl (hrest '.' rfl).2.1
    · exact absurd rfl (hrest 'e' rfl).2.2.1
    · exact absurd rfl (hrest 'E' rfl).2.2.2
    · rfl

/-- An integer begins with a digit or with a minus sign. -/
theorem Integer.exists_cons {text : List Char} (h : Integer text n) :
    ∃ c more, text = c :: more ∧ ¬ IsSpace c ∧ c ≠ ']' := by
  cases h with
  | plain hdigits _ =>
      cases text with
      | nil => exact absurd rfl hdigits.digits.ne_nil
      | cons c more =>
          have hc := hdigits.digits.isDigit c List.mem_cons_self
          refine ⟨c, more, rfl, not_isSpace_of_isDigit hc, ?_⟩
          rintro rfl
          exact absurd hc (by decide)
  | negative _ _ _ => exact ⟨'-', _, rfl, by decide, by decide⟩

theorem integer?_eq_some_iff : integer? s = some (n, rest) ↔
    ∃ w text, Space w ∧ Integer text n ∧ Stops rest ∧ s = w ++ (text ++ rest) := by
  rw [integer?_eq]
  constructor
  · intro h
    rcases exists_space s with ⟨w, hw, hs⟩
    split at h
    · rename_i after hminus
      rcases unsigned?_eq_some_iff.mp h with ⟨digits, m, hdigits, rfl, hzero, hfits, hrest, rfl⟩
      refine ⟨w, '-' :: digits, hw, ?_, hrest, by rw [hs, hminus]; rfl⟩
      exact .negative hdigits (fun hm => hzero ⟨rfl, hm⟩) hfits
    · rcases unsigned?_eq_some_iff.mp h with ⟨digits, m, hdigits, rfl, _, hfits, hrest, heq⟩
      exact ⟨w, digits, hw, .plain hdigits hfits, hrest, by rw [← heq]; exact hs⟩
  · rintro ⟨w, text, hw, htext, hrest, rfl⟩
    rcases htext.exists_cons with ⟨c, more, hcons, hc, _⟩
    rw [skipSpace_append hw, hcons, List.cons_append, skipSpace_cons hc, ← List.cons_append,
      ← hcons]
    cases htext with
    | @plain _ m hdigits hfits =>
        -- A numeral begins with a digit, so it is not taken for a negative one.
        split
        · rename_i heq
          exact absurd heq (digits_append_ne_cons hdigits.digits rfl _ _)
        · exact unsigned?_eq_some_iff.mpr
            ⟨text, m, hdigits, rfl, fun h => Bool.false_ne_true h.1, hfits, hrest, rfl⟩
    | @negative digits m hdigits hzero hfits =>
        exact unsigned?_eq_some_iff.mpr
          ⟨digits, m, hdigits, rfl, fun h => hzero h.2, hfits, hrest, rfl⟩

/-- An array of integers. -/
inductive Integers : List Char → List Int → Prop where
  | empty {inner : List Char} : Space inner → Integers ('[' :: (inner ++ [']'])) []
  | items {items : List (List Char)} {ns : List Int} : items ≠ [] →
      List.Forall₂ (fun item n => Padded (Integer · n) item) items ns →
      Integers ('[' :: (joined items ++ [']'])) ns

theorem Padded.of_self {P : List Char → Prop} {s : List Char} (h : P s) : Padded P s :=
  ⟨[], s, [], space_nil, h, space_nil, by simp⟩

theorem Padded.elim {P : List Char → Prop} {Q : Prop} {s : List Char} (h : Padded P s)
    (hQ : ∀ {text}, P text → Q) : Q := by
  rcases h with ⟨_, _, _, _, htext, _⟩
  exact hQ htext

theorem Padded.append {P : List Char → Prop} {text w : List Char} (h : Padded P text)
    (hw : Space w) : Padded P (text ++ w) := by
  rcases h with ⟨before, text, after, hbefore, htext, hafter, rfl⟩
  exact ⟨before, text, after ++ w, hbefore, htext,
    fun c hc => (List.mem_append.mp hc).elim (hafter c) (hw c), by simp⟩

theorem takes_integer {text : List Char} (h : Padded (Integer · n) text) :
    Takes integer? text n := by
  rcases h with ⟨before, digits, after, hbefore, hdigits, hafter, rfl⟩
  intro rest hrest
  exact ⟨after ++ rest, integer?_eq_some_iff.mpr
    ⟨before, digits, hbefore, hdigits, hrest.append hafter, by simp⟩, skipSpace_append hafter rest⟩

theorem integer?_sound : Sound (fun text n => Padded (Integer · n) text) integer? := by
  intro s n rest h
  rcases integer?_eq_some_iff.mp h with ⟨w, text, hw, htext, _, rfl⟩
  exact ⟨w ++ text, ⟨w, text, [], hw, htext, space_nil, by simp⟩, by simp⟩

theorem integerItems?_eq (fuel : Nat) (s : List Char) :
    integerItems? fuel s = list? ']' (fun _ => integer?) fuel s := by
  induction fuel generalizing s with
  | zero => rfl
  | succ fuel ih =>
      rw [integerItems?, list?]
      rcases integer? s with _ | ⟨n, left⟩
      · rfl
      · simp only [Option.bind_eq_bind, Option.bind_some]
        -- The two readers ask for the bracket and for the comma in different orders.
        rcases skipSpace left with _ | ⟨c, more⟩
        · rfl
        · by_cases hclose : c = ']'
          · simp [hclose]
          · by_cases hcomma : c = ','
            · subst hcomma
              dsimp only
              rw [if_pos rfl, ← ih, Option.map_eq_bind]
              rfl
            · simp [hcomma, hclose]

@[simp] theorem integerItems?_skipSpace (fuel : Nat) (s : List Char) :
    integerItems? fuel (skipSpace s) = integerItems? fuel s := by
  cases fuel with
  | zero => rfl
  | succ fuel => rw [integerItems?, integerItems?, integer?_eq, skipSpace_skipSpace, ← integer?_eq]

theorem integers?_sound : Sound (fun text ns => Padded (Integers · ns) text) integers? := by
  intro s ns rest h
  rcases Option.bind_eq_some_iff.mp h with ⟨inner, hopen, hinner⟩
  rcases (expect?_eq_some_iff (by decide)).mp hopen with ⟨w, hw, rfl⟩
  suffices harray : ∃ array, Integers array ns ∧ '[' :: inner = array ++ rest by
    rcases harray with ⟨array, harray, heq⟩
    exact ⟨w ++ array, ⟨w, array, [], hw, harray, space_nil, by simp⟩, by rw [heq]; simp⟩
  split at hinner
  · rename_i left hclose
    cases hinner
    rcases (skipSpace_eq_cons_iff (by decide)).mp hclose with ⟨w', hw', rfl⟩
    exact ⟨_, .empty hw', by simp⟩
  · rw [integerItems?_skipSpace, integerItems?_eq] at hinner
    rcases list?_sound (fun _ _ => integer?_sound) (fun _ _ _ => Padded.append) (Or.inl rfl) hinner
      with ⟨items, hne, hitems, rfl⟩
    exact ⟨_, .items hne hitems, by simp⟩

/-- White space in front of the first integer is skipped before the bracket that might close. -/
theorem exists_trimmed {items : List (List Char)} {ns : List Int} (hne : items ≠ [])
    (h : List.Forall₂ (fun item n => Padded (Integer · n) item) items ns) (rest : List Char) :
    ∃ trimmed, trimmed ≠ [] ∧
      List.Forall₂ (fun item n => Padded (Integer · n) item) trimmed ns ∧
      skipSpace (joined items ++ rest) = joined trimmed ++ rest ∧
      ∀ left, joined trimmed ++ rest ≠ ']' :: left := by
  cases h with
  | nil => exact absurd rfl hne
  | @cons item n items ns hitem hitems =>
      rcases hitem with ⟨before, text, after, hbefore, htext, hafter, rfl⟩
      have hjoined : ∀ item, joined (item :: items) =
          item ++ if items = [] then [] else ',' :: joined items := by
        intro item
        by_cases hmore : items = []
        · simp [hmore, joined_singleton]
        · simp [hmore, joined_cons]
      rcases htext.exists_cons with ⟨c, more, hcons, hspace, hclose⟩
      refine ⟨(text ++ after) :: items, List.cons_ne_nil _ _,
        .cons ⟨[], text, after, space_nil, htext, hafter, rfl⟩ hitems, ?_, fun left heq => ?_⟩
      · rw [hjoined, hjoined, List.append_assoc, List.append_assoc, List.append_assoc,
          skipSpace_append hbefore, hcons, List.cons_append, skipSpace_cons hspace]
        simp
      · rw [hjoined, hcons] at heq
        exact hclose (List.cons.inj heq).1

theorem takes_integers {text : List Char} {ns : List Int} (h : Padded (Integers · ns) text) :
    Takes integers? text ns := by
  rcases h with ⟨before, array, after, hbefore, harray, hafter, rfl⟩
  intro rest hrest
  refine ⟨after ++ rest, ?_, skipSpace_append hafter rest⟩
  cases harray with
  | @empty inner hinner =>
      have hopen := expect?_append (show ¬ IsSpace '[' by decide) hbefore
        (inner ++ ']' :: (after ++ rest))
      have hclose := skipSpace_cons (show ¬ IsSpace ']' by decide) (after ++ rest)
      simp [integers?, hopen, skipSpace_append hinner, hclose]
  | @items items ns hne hitems =>
      have hopen := expect?_append (show ¬ IsSpace '[' by decide) hbefore
        (joined items ++ ']' :: (after ++ rest))
      rcases exists_trimmed hne hitems (']' :: (after ++ rest)) with
        ⟨trimmed, hne', hitems', hskip, hclose⟩
      have hread : list? ']' (fun _ => integer?)
          ((joined trimmed).length + (after ++ rest).length + 2)
          (joined trimmed ++ ']' :: (after ++ rest)) = some (ns, after ++ rest) :=
        list?_append hne' (hitems'.imp fun _ _ hitem _ _ => takes_integer hitem) (Or.inl rfl)
          (Nat.le_add_right _ _) (after ++ rest)
      have hfuel : (joined trimmed ++ ']' :: (after ++ rest)).length + 1 =
          (joined trimmed).length + (after ++ rest).length + 2 := by
        simp only [List.length_append, List.length_cons]
        omega
      have hinput : before ++ '[' :: (joined items ++ [']']) ++ after ++ rest =
          before ++ '[' :: (joined items ++ ']' :: (after ++ rest)) := by
        simp
      rw [hinput, integers?, hopen, Option.bind_eq_bind, Option.bind_some, hskip]
      -- The reader looks for an empty array first, and does not find one.
      split
      · rename_i heq
        exact absurd heq (hclose _)
      · rw [integerItems?_eq, hfuel, hread]

end Integers

section Write

/-- Integers in brackets, with commas between them and no white space. -/
def integersText (ns : List Int) : List Char :=
  '[' :: (joined (ns.map fun n => (toString n).toList) ++ [']'])

theorem isBlank_of_isSpace {c : Char} (h : IsSpace c) : Text.isBlank c = true := by
  rcases h with rfl | rfl | rfl | rfl <;> decide

theorem not_isSpace_toString (n : Int) : ∀ c ∈ (toString n).toList, ¬ IsSpace c := by
  intro c hc hspace
  have hblank := (Text.plain_toString_int n).not_blank c hc
  rw [isBlank_of_isSpace hspace] at hblank
  exact Bool.noConfusion hblank

theorem forall_joined_iff {items : List (List Char)} : (∀ c ∈ joined items, ¬ IsSpace c) ↔
    ∀ item ∈ items, ∀ c ∈ item, ¬ IsSpace c := by
  induction items with
  | nil => exact iff_of_true (fun c hc => nomatch hc) (fun item hitem => nomatch hitem)
  | cons item items ih =>
      by_cases hne : items = []
      · rw [hne, joined_singleton, List.forall_mem_singleton]
      · rw [joined_cons _ hne, List.forall_mem_append, List.forall_mem_cons, List.forall_mem_cons,
          ih, and_iff_right (show ¬ IsSpace ',' by decide)]

theorem not_isSpace_integersText (ns : List Int) : ∀ c ∈ integersText ns, ¬ IsSpace c := by
  rw [integersText, List.forall_mem_cons, List.forall_mem_append, forall_joined_iff,
    List.forall_mem_map, List.forall_mem_singleton]
  exact ⟨by decide, fun n _ => not_isSpace_toString n, by decide⟩

theorem integers_integersText {ns : List Int} (h : ∀ n ∈ ns, Text.fitsInt64 n = true) :
    Integers (integersText ns) ns := by
  cases ns with
  | nil => exact .empty space_nil
  | cons n ns =>
      refine .items (by simp) ?_
      rw [List.forall₂_map_left_iff, List.forall₂_same]
      exact fun n hn => ⟨[], _, [], space_nil, integer_iff.mpr ⟨rfl, h n hn⟩, space_nil, by simp⟩

/-- Where there is no white space at all, there is none around. -/
theorem Padded.of_not_isSpace {P : List Char → Prop} {s : List Char} (h : Padded P s)
    (hspace : ∀ c ∈ s, ¬ IsSpace c) : P s := by
  rcases h with ⟨before, text, after, hbefore, htext, hafter, rfl⟩
  have hnil : ∀ w, Space w → (∀ c ∈ w, c ∈ before ++ text ++ after) → w = [] := fun w hw hmem =>
    List.eq_nil_iff_forall_not_mem.mpr fun c hc => hspace c (hmem c hc) (hw c hc)
  rw [hnil before hbefore fun c hc => by simp [hc], hnil after hafter fun c hc => by simp [hc]]
  simpa using htext

/-- Integers are written in one way, if there is no white space. -/
theorem Integers.eq_integersText {s : List Char} {ns : List Int} (h : Integers s ns)
    (hspace : ∀ c ∈ s, ¬ IsSpace c) : s = integersText ns := by
  cases h with
  | @empty inner hinner =>
      have hnil : inner = [] := List.eq_nil_iff_forall_not_mem.mpr fun c hc =>
        hspace c (by simp [hc]) (hinner c hc)
      rw [hnil]
      rfl
  | @items items ns hne hitems =>
      have hwritten : items = ns.map fun n => (toString n).toList := by
        rw [List.forall_mem_cons, List.forall_mem_append, forall_joined_iff] at hspace
        have hnone := hspace.2.1
        clear hspace hne
        induction hitems with
        | nil => rfl
        | cons hitem _ ih =>
            rcases List.forall_mem_cons.mp hnone with ⟨hfirst, hrest⟩
            rw [(integer_iff.mp (hitem.of_not_isSpace hfirst)).1, ih hrest]
            rfl
      rw [hwritten]
      rfl

theorem Integer.fits {s : List Char} {n : Int} (h : Integer s n) : Text.fitsInt64 n = true :=
  (integer_iff.mp h).2

theorem Integers.fits {s : List Char} {ns : List Int} (h : Integers s ns) :
    ∀ n ∈ ns, Text.fitsInt64 n = true := by
  cases h with
  | empty _ => exact fun n hn => nomatch hn
  | items hne hitems =>
      clear hne
      induction hitems with
      | nil => exact fun n hn => nomatch hn
      | cons hitem _ ih =>
          rcases hitem with ⟨_, _, _, _, hn, _, _⟩
          exact List.forall_mem_cons.mpr ⟨hn.fits, ih⟩

end Write

end Json

end OutboxCluster
