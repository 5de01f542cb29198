import Mathlib.Data.List.Forall2

/-!
# Computations that Can Fail

A computation that goes through a list of steps and stops at the first one that
fails has come through exactly if every step has. What is read from a table and
what is checked of settings are of this kind, and the laws here take them
apart. What both of them are after is often a word, to which a number is cut down
once it is known to fit.

## Theorems

* `bind_eq_ok_iff`, `bind_eq_error_iff`: One step after another.
* `mapM_eq_ok_iff`, `mapM_eq_error_iff`: One step for each member of a list.
* `exists_of_mapM`: Where a member of the outcome comes from.
* `mem_of_mapM`: What has become of a member of the list.
* `cutDown_toNat`: A number that fits a word.
-/

namespace OutboxCluster

variable {ε α β : Type}

/-- A step that goes on after another one comes through if both do. -/
theorem bind_eq_ok_iff {x : Except ε α} {f : α → Except ε β} {b : β} :
    (x >>= f) = .ok b ↔ ∃ a, x = .ok a ∧ f a = .ok b := by
  cases x with
  | error e => simp only [bind, Except.bind, reduceCtorEq, false_and, exists_false]
  | ok a => simp only [bind, Except.bind, Except.ok.injEq, exists_eq_left']

/-- It fails if one of the two does. -/
theorem bind_eq_error_iff {x : Except ε α} {f : α → Except ε β} {e : ε} :
    (x >>= f) = .error e ↔ x = .error e ∨ ∃ a, x = .ok a ∧ f a = .error e := by
  cases x with
  | error e' => simp only [bind, Except.bind, Except.error.injEq, reduceCtorEq, false_and,
      exists_false, or_false]
  | ok a => simp only [bind, Except.bind, reduceCtorEq, Except.ok.injEq, exists_eq_left', false_or]

/-- Steps for the members of a list come through if each does. -/
theorem mapM_eq_ok_iff {f : α → Except ε β} {l : List α} {r : List β} :
    l.mapM f = .ok r ↔ List.Forall₂ (fun a b => f a = .ok b) l r := by
  induction l generalizing r with
  | nil =>
      rw [List.mapM_nil, List.forall₂_nil_left_iff]
      exact ⟨fun h => (Except.ok.inj h).symm, fun h => congrArg Except.ok h.symm⟩
  | cons a l ih =>
      rw [List.mapM_cons, bind_eq_ok_iff, List.forall₂_cons_left_iff]
      constructor
      · rintro ⟨b, hb, h⟩
        rcases bind_eq_ok_iff.mp h with ⟨bs, hbs, hr⟩
        exact ⟨b, bs, hb, ih.mp hbs, (Except.ok.inj hr).symm⟩
      · rintro ⟨b, bs, hb, hbs, rfl⟩
        exact ⟨b, hb, bind_eq_ok_iff.mpr ⟨bs, ih.mpr hbs, rfl⟩⟩

/-- Steps for the members of a list fail with the first one that does. -/
theorem mapM_eq_error_iff {f : α → Except ε β} {l : List α} {e : ε} :
    l.mapM f = .error e ↔ ∃ before a after, l = before ++ a :: after ∧
      (∀ b ∈ before, ∃ c, f b = .ok c) ∧ f a = .error e := by
  induction l with
  | nil => simp [pure, Except.pure]
  | cons x l ih =>
      rw [List.mapM_cons, bind_eq_error_iff]
      constructor
      · rintro (hx | ⟨y, hx, hrest⟩)
        · exact ⟨[], x, l, rfl, fun _ hb => absurd hb List.not_mem_nil, hx⟩
        -- To put the result in front of the others cannot fail.
        · rcases bind_eq_error_iff.mp hrest with hl | ⟨_, _, h⟩
          · rcases ih.mp hl with ⟨before, a, after, rfl, hbefore, ha⟩
            refine ⟨x :: before, a, after, rfl, fun b hb => ?_, ha⟩
            rcases List.mem_cons.mp hb with rfl | hb
            · exact ⟨y, hx⟩
            · exact hbefore b hb
          · exact nomatch h
      · rintro ⟨before, a, after, hsplit, hbefore, ha⟩
        cases before with
        | nil =>
            rw [(List.cons.inj hsplit).1]
            exact Or.inl ha
        | cons b before =>
            rcases List.cons.inj hsplit with ⟨rfl, rfl⟩
            rcases hbefore x List.mem_cons_self with ⟨y, hx⟩
            have hl := ih.mpr ⟨before, a, after, rfl,
              fun c hc => hbefore c (List.mem_cons_of_mem x hc), ha⟩
            exact Or.inr ⟨y, hx, bind_eq_error_iff.mpr (Or.inl hl)⟩

/-- What has come out of the steps has come out of one of them. -/
theorem exists_of_mapM {f : α → Except ε β} {l : List α} {r : List β} (h : l.mapM f = .ok r)
    {b : β} (hb : b ∈ r) : ∃ a ∈ l, f a = .ok b := by
  have hsteps := mapM_eq_ok_iff.mp h
  clear h
  induction hsteps with
  | nil => exact absurd hb List.not_mem_nil
  | cons hstep _ ih =>
      rcases List.mem_cons.mp hb with rfl | hb
      · exact ⟨_, List.mem_cons_self, hstep⟩
      · rcases ih hb with ⟨a, ha, hread⟩
        exact ⟨a, List.mem_cons_of_mem _ ha, hread⟩

/-- The step for a member of the list has given a member of the outcome. -/
theorem mem_of_mapM {f : α → Except ε β} {l : List α} {r : List β} (h : l.mapM f = .ok r)
    {a : α} (ha : a ∈ l) : ∃ b ∈ r, f a = .ok b := by
  have hsteps := mapM_eq_ok_iff.mp h
  clear h
  induction hsteps with
  | nil => exact absurd ha List.not_mem_nil
  | cons hstep _ ih =>
      rcases List.mem_cons.mp ha with rfl | ha
      · exact ⟨_, List.mem_cons_self, hstep⟩
      · rcases ih ha with ⟨b, hb, hread⟩
        exact ⟨b, List.mem_cons_of_mem _ hb, hread⟩

/-- A number that fits a word is not changed by being cut down to one. -/
theorem cutDown_toNat {n : Int} (hpos : 0 ≤ n) (hlt : n < 4294967296) :
    ((UInt32.ofNat n.toNat).toNat : Int) = n := by
  rw [UInt32.toNat_ofNat_of_lt' (by unfold UInt32.size; omega)]
  omega

end OutboxCluster
