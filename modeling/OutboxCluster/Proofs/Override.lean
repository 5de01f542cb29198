import Mathlib.Data.List.Forall2
import OutboxCluster.Proofs.Fallible
import OutboxCluster.Proofs.Numeral
import OutboxCluster.Settings.Override

/-!
# Overriding Settings

Twelve variables override twelve settings, and each of them is read in one of five ways. The
settings are taken together here: a setting has a kind, which says what values it can have and
which texts write them, and it can be looked up in settings (`Setting.get`) and written into
them (`Setting.put`). Assigning a text to a setting is then reading the text and writing the
value (`Setting.assign_eq`), and settings are known from what is looked up in them
(`Settings.ext_get`), so that no later argument goes through the twelve of them again.

The variables are gone through in a fixed order, up to the first one whose text does not write
a value. `Overrides` says what has come out of that: either all variables have been applied, or
those before the refused one have.

## Main definitions

* `Kind`, `Kind.Writes`, `Kind.Refuses`: Which texts write which values, and what is quoted of
  the others.
* `Setting.get`, `Setting.put`: One setting among all.
* `Setting.Overridden`: A setting is as its variable says, if there is one.
* `Settings.Overrides`: What has come out of a list of variables.
* `Settings.printed`: The variables that write given settings.

## Theorems

* `Kind.read_eq_ok_iff`, `Kind.read_eq_error_iff`: A reader accepts the texts that write a value.
* `Setting.assign_eq`: A variable is read and its value is written.
* `Settings.applyEach_overrides`: What has come out of a list of variables.
* `overrides_apply_in_order`: When variables are applied, how far, and with which outcome.
-/

namespace OutboxCluster

/-- What a setting holds. -/
inductive Kind where
  | truth
  | integer
  | integers
  | word64
  | word32
deriving DecidableEq, Repr

namespace Kind

/-- The values of a kind. -/
@[reducible] def Value : Kind → Type
  | truth => Bool
  | integer => Int64
  | integers => List Int64
  | word64 => UInt64
  | word32 => UInt32

/-- The items of a written list. Blanks around them do not matter, and empty ones are left
    out. -/
def itemsOf (text : List Char) : List (List Char) :=
  ((text.splitOn ',').map Text.trim).filter fun item => item ≠ []

/-- A text writes a value of the kind. -/
def Writes : (k : Kind) → List Char → k.Value → Prop
  | truth, text, b => Text.trim text = (toString b).toList
  | integer, text, n => Text.Signed (Text.trim text) n.toInt
  | integers, text, ns => List.Forall₂ (fun item n => Text.Signed item n.toInt) (itemsOf text) ns
  | word64, text, w => Text.Unsigned (Text.trim text) w.toNat
  | word32, text, w => Text.Unsigned (Text.trim text) w.toNat

/-- What is quoted of a text that writes no value: the text as it stands, or the first item of
    a list that writes no integer. -/
def Refuses : Kind → List Char → String → Prop
  | integers, text, refused => ∃ before item after, itemsOf text = before ++ item :: after ∧
      (∀ i ∈ before, ∃ n : Int64, Text.Signed i n.toInt) ∧
      (¬ ∃ n : Int64, Text.Signed item n.toInt) ∧ refused = String.ofList item
  | k, text, refused => (¬ ∃ v, k.Writes text v) ∧ refused = String.ofList text

/-- The reader of a kind. -/
def read : (k : Kind) → List Char → Except String k.Value
  | truth, text => Setting.orRefused text (Text.truth? (Text.trim text))
  | integer, text => Setting.orRefused text (Text.integer64? (Text.trim text))
  | integers, text => Setting.integers text
  | word64, text => Setting.orRefused text (Text.word64? (Text.trim text))
  | word32, text => Setting.orRefused text (Text.word32? (Text.trim text))

/-- How a value is written. -/
def print : (k : Kind) → k.Value → String
  | truth, b => toString b
  | integer, n => toString n.toInt
  | integers, ns => String.intercalate "," (ns.map fun n => toString n.toInt)
  | word64, w => toString w.toNat
  | word32, w => toString w.toNat

section Read

variable {k : Kind} {text : List Char} {v v' : k.Value} {refused : String}

theorem orRefused_eq_ok_iff {α : Type} {value : Option α} {a : α} :
    Setting.orRefused text value = .ok a ↔ value = some a := by
  cases value <;> simp [Setting.orRefused]

theorem orRefused_eq_error_iff {α : Type} {value : Option α} {P : α → Prop}
    (h : ∀ a, value = some a ↔ P a) : Setting.orRefused text value = .error refused ↔
      (¬ ∃ a, P a) ∧ refused = String.ofList text := by
  simp only [← h]
  cases value <;> simp [Setting.orRefused, eq_comm]

/-- The commas split a text as they split any list. -/
theorem splitCommas_eq (text : List Char) : Setting.splitCommas text = text.splitOn ',' := by
  induction text with
  | nil => rfl
  | cons c text ih =>
      unfold Setting.splitCommas
      rw [List.splitOn_cons_eq_if_modifyHead, ih]
      by_cases hc : c = ','
      · simp [hc]
      · rw [if_neg hc, if_neg (by simpa using hc)]
        cases hsplit : text.splitOn ',' with
        | nil => exact absurd hsplit (List.splitOn_ne_nil _ _)
        | cons item items => rfl

theorem items_eq (text : List Char) : Setting.items text = itemsOf text := by
  unfold Setting.items itemsOf
  rw [splitCommas_eq]
  congr 1
  funext item
  cases item <;> simp

theorem integers_eq_ok_iff {ns : List Int64} : Setting.integers text = .ok ns ↔
    List.Forall₂ (fun item n => Text.Signed item n.toInt) (itemsOf text) ns := by
  unfold Setting.integers
  rw [mapM_eq_ok_iff, items_eq]
  simp only [orRefused_eq_ok_iff, Text.integer64?_eq_some_iff]

/-- The first item that writes no integer is quoted. -/
theorem integers_eq_error_iff : Setting.integers text = .error refused ↔
    integers.Refuses text refused := by
  unfold Setting.integers
  rw [mapM_eq_error_iff, items_eq]
  simp only [orRefused_eq_ok_iff, orRefused_eq_error_iff fun _ => Text.integer64?_eq_some_iff,
    Text.integer64?_eq_some_iff]
  rfl

/-- A reader accepts the texts that write a value, and reads this value. -/
theorem read_eq_ok_iff : k.read text = .ok v ↔ k.Writes text v := by
  cases k with
  | truth => exact orRefused_eq_ok_iff.trans Text.truth?_eq_some_iff
  | integer => exact orRefused_eq_ok_iff.trans Text.integer64?_eq_some_iff
  | integers => exact integers_eq_ok_iff
  | word64 => exact orRefused_eq_ok_iff.trans Text.word64?_eq_some_iff
  | word32 => exact orRefused_eq_ok_iff.trans Text.word32?_eq_some_iff

theorem read_eq_error_iff : k.read text = .error refused ↔ k.Refuses text refused := by
  cases k with
  | truth => exact orRefused_eq_error_iff fun _ => Text.truth?_eq_some_iff
  | integer => exact orRefused_eq_error_iff fun _ => Text.integer64?_eq_some_iff
  | integers => exact integers_eq_error_iff
  | word64 => exact orRefused_eq_error_iff fun _ => Text.word64?_eq_some_iff
  | word32 => exact orRefused_eq_error_iff fun _ => Text.word32?_eq_some_iff

/-- A text writes one value at most. -/
theorem Writes.unique (h : k.Writes text v) (h' : k.Writes text v') : v = v' :=
  Except.ok.inj ((read_eq_ok_iff.mpr h).symm.trans (read_eq_ok_iff.mpr h'))

theorem Refuses.not_writes (h : k.Refuses text refused) : ¬ ∃ v, k.Writes text v := by
  rintro ⟨v, hv⟩
  have hread := (read_eq_ok_iff.mpr hv).symm.trans (read_eq_error_iff.mpr h)
  exact nomatch hread

end Read

/-- The items of a list are read back from where they are written. -/
theorem itemsOf_intercalate {items : List (List Char)} (h : ∀ item ∈ items, Text.Plain item) :
    itemsOf (List.intercalate [','] items) = items := by
  cases items with
  | nil => rfl
  | cons item items =>
      unfold itemsOf
      rw [List.splitOn_intercalate ',' (fun i hi => (h i hi).not_comma) (List.cons_ne_nil _ _),
        List.map_congr_left (g := id) (fun i hi => (h i hi).trim), List.map_id,
        List.filter_eq_self.mpr]
      exact fun i hi => by simpa using (h i hi).ne_nil

theorem unsigned_trim (n : Nat) : Text.Unsigned (Text.trim (toString n).toList) n := by
  rw [(Text.plain_toString_nat n).trim]
  exact Text.unsigned_toString n

theorem signed_trim (n : Int) : Text.Signed (Text.trim (toString n).toList) n := by
  rw [(Text.plain_toString_int n).trim]
  exact Text.signed_toString n

theorem signed_itemsOf (ns : List Int64) :
    List.Forall₂ (fun item n => Text.Signed item n.toInt)
      (itemsOf (print integers ns).toList) ns := by
  have hplain : ∀ item ∈ ns.map fun n => (toString n.toInt).toList, Text.Plain item := by
    intro item hitem
    rcases List.mem_map.mp hitem with ⟨n, _, rfl⟩
    exact Text.plain_toString_int n.toInt
  have hlist : (print integers ns).toList =
      List.intercalate [','] (ns.map fun n => (toString n.toInt).toList) := by
    rw [print, String.toList_intercalate, List.map_map]
    rfl
  rw [hlist, itemsOf_intercalate hplain, List.forall₂_map_left_iff]
  exact List.forall₂_same.mpr fun n _ => Text.signed_toString n.toInt

/-- What is written for a value writes it. -/
theorem writes_print (k : Kind) (v : k.Value) : k.Writes (k.print v).toList v := by
  cases k with
  | truth => cases v <;> rfl
  | integer => exact signed_trim _
  | integers => exact signed_itemsOf v
  | word64 => exact unsigned_trim _
  | word32 => exact unsigned_trim _

end Kind

namespace Setting

/-- The kind of a setting. -/
def kind : Setting → Kind
  | isStatic | enabled => .truth
  | totalCount => .integer
  | assigned => .integers
  | pollingInterval | pulseInterval | pulseExpiration | transactionTimeout | retryDelay => .word64
  | batchSize | maxConsecutiveBatches | maxRetryAttempts => .word32

/-- What settings say about one of them, unless they leave it out. -/
def get : (setting : Setting) → Settings → Option setting.kind.Value
  | isStatic, s => some s.shards.isStatic
  | totalCount, s => s.shards.totalCount
  | assigned, s => s.shards.assigned
  | enabled, s => some s.processors.enabled
  | pollingInterval, s => some s.processors.pollingInterval
  | pulseInterval, s => some s.processors.pulseInterval
  | pulseExpiration, s => some s.processors.pulseExpiration
  | batchSize, s => some s.processors.batchSize
  | transactionTimeout, s => s.processors.transactionTimeout
  | retryDelay, s => some s.processors.retryDelay
  | maxConsecutiveBatches, s => some s.processors.maxConsecutiveBatches
  | maxRetryAttempts, s => s.processors.maxRetryAttempts

/-- Settings with one of them written. -/
def put : (setting : Setting) → setting.kind.Value → Settings → Settings
  | isStatic, v, s => { s with shards.isStatic := v }
  | totalCount, v, s => { s with shards.totalCount := some v }
  | assigned, v, s => { s with shards.assigned := some v }
  | enabled, v, s => { s with processors.enabled := v }
  | pollingInterval, v, s => { s with processors.pollingInterval := v }
  | pulseInterval, v, s => { s with processors.pulseInterval := v }
  | pulseExpiration, v, s => { s with processors.pulseExpiration := v }
  | batchSize, v, s => { s with processors.batchSize := v }
  | transactionTimeout, v, s => { s with processors.transactionTimeout := some v }
  | retryDelay, v, s => { s with processors.retryDelay := v }
  | maxConsecutiveBatches, v, s => { s with processors.maxConsecutiveBatches := v }
  | maxRetryAttempts, v, s => { s with processors.maxRetryAttempts := some v }

variable (setting : Setting)

@[simp] theorem get_put_self (v : setting.kind.Value) (s : Settings) :
    setting.get (setting.put v s) = some v := by
  cases setting <;> rfl

theorem get_put_of_ne {a b : Setting} (h : a ≠ b) (v : b.kind.Value) (s : Settings) :
    a.get (b.put v s) = a.get s := by
  cases b <;> cases a <;> first | rfl | exact absurd rfl h

theorem mem_all : setting ∈ all := by
  cases setting <;> decide

theorem nodup_all : all.Nodup := by decide

theorem key_injective {a b : Setting} (h : a.key = b.key) : a = b := by
  cases a <;> cases b <;> first | rfl | simp [key] at h

/-- A variable is read, and its value is written. -/
theorem assign_eq (text : String) (s : Settings) : setting.assign text s =
    (setting.kind.read text.toList).map fun v => setting.put v s := by
  have hmap : ∀ {α : Type} (x : Except String α) (f : α → Settings),
      (x >>= fun a => pure (f a)) = x.map f := by
    intro α x f
    cases x <;> rfl
  cases setting <;> exact hmap _ _

end Setting

/-- Settings are known from what they say about each of them. -/
theorem Settings.ext_get {s t : Settings} (h : ∀ setting : Setting, setting.get s = setting.get t) :
    s = t := by
  rcases s with ⟨⟨_, _, _⟩, ⟨_, _, _, _, _, _, _, _, _⟩⟩
  rcases t with ⟨⟨_, _, _⟩, ⟨_, _, _, _, _, _, _, _, _⟩⟩
  simp only [Settings.mk.injEq, ShardSettings.mk.injEq, ProcessorSettings.mk.injEq]
  exact ⟨⟨Option.some.inj (h .isStatic), h .totalCount, h .assigned⟩,
    Option.some.inj (h .enabled), Option.some.inj (h .pollingInterval),
    Option.some.inj (h .pulseInterval), Option.some.inj (h .pulseExpiration),
    Option.some.inj (h .batchSize), h .transactionTimeout, Option.some.inj (h .retryDelay),
    Option.some.inj (h .maxConsecutiveBatches), h .maxRetryAttempts⟩

section Apply

variable {lookup : String → Option String} {setting : Setting} {settings : List Setting}
  {s t r r' : Settings}

/-- In `r` a setting is as its variable says, or as it was in `s` if there is no such
    variable. -/
def Setting.Overridden (lookup : String → Option String) (setting : Setting) (s r : Settings) :
    Prop :=
  match lookup setting.key with
  | none => setting.get r = setting.get s
  | some text => ∃ v, setting.kind.Writes text.toList v ∧ setting.get r = some v

/-- Two outcomes from the same settings agree. -/
theorem Setting.Overridden.unique (h : setting.Overridden lookup s r)
    (h' : setting.Overridden lookup s r') : setting.get r = setting.get r' := by
  unfold Setting.Overridden at h h'
  cases hlookup : lookup setting.key with
  | none =>
      rw [hlookup] at h h'
      exact h.trans h'.symm
  | some text =>
      rw [hlookup] at h h'
      rcases h with ⟨v, hv, hr⟩
      rcases h' with ⟨v', hv', hr'⟩
      rw [hr, hr', hv.unique hv']

/-- Only the old value of the setting itself matters. -/
theorem Setting.Overridden.congr (h : setting.Overridden lookup s r)
    (hget : setting.get s = setting.get t) : setting.Overridden lookup t r := by
  unfold Setting.Overridden at h ⊢
  rw [← hget]
  exact h

/-- What is overridden once is not changed by the same variable again. -/
theorem Setting.Overridden.again (h : setting.Overridden lookup s r) :
    setting.Overridden lookup r r := by
  unfold Setting.Overridden at h ⊢
  cases hlookup : lookup setting.key with
  | none => rfl
  | some text =>
      rw [hlookup] at h
      exact h

/-- The text of a variable that is there writes a value of its setting. -/
def Setting.Readable (lookup : String → Option String) (setting : Setting) : Prop :=
  ∀ text, lookup setting.key = some text → ∃ v, setting.kind.Writes text.toList v

theorem Setting.Overridden.readable (h : setting.Overridden lookup s r) :
    setting.Readable lookup := by
  intro text hlookup
  unfold Setting.Overridden at h
  rw [hlookup] at h
  rcases h with ⟨v, hv, _⟩
  exact ⟨v, hv⟩

namespace Settings

/-- What has come out of the variables of the listed settings. Either all of them have been
    applied, or one has been refused and those before it have been applied. The other settings
    are as they were. -/
inductive Overrides (lookup : String → Option String) (settings : List Setting) (s : Settings) :
    Settings × Except ConfigError Unit → Prop where
  | applied (r : Settings) (hall : ∀ x ∈ settings, x.Overridden lookup s r)
      (hother : ∀ x ∉ settings, x.get r = x.get s) :
      Overrides lookup settings s (r, .ok ())
  | refused (r : Settings) (before after : List Setting) (failing : Setting) (text refused : String)
      (hsplit : settings = before ++ failing :: after)
      (hlookup : lookup failing.key = some text)
      (hrefused : failing.kind.Refuses text.toList refused)
      (hbefore : ∀ x ∈ before, x.Overridden lookup s r)
      (hother : ∀ x ∉ before, x.get r = x.get s) :
      Overrides lookup settings s (r, .error (.invalidVariable failing.key refused))

/-- One more setting in front, which is as its variable says once it has been looked at. -/
theorem Overrides.cons {first : Setting} {outcome : Settings × Except ConfigError Unit}
    (h : Overrides lookup settings t outcome) (hnot : first ∉ settings)
    (hfirst : first.Overridden lookup s t) (hother : ∀ x, x ≠ first → x.get t = x.get s) :
    Overrides lookup (first :: settings) s outcome := by
  -- The settings that follow do not touch the first one.
  have hkeep : ∀ r : Settings, first.get r = first.get t → first.Overridden lookup s r := by
    intro r hr
    unfold Setting.Overridden at hfirst ⊢
    rw [hr]
    exact hfirst
  cases h with
  | applied r hall hrest =>
      refine .applied r (fun x hx => ?_) fun x hx => ?_
      · rcases List.mem_cons.mp hx with rfl | hx
        · exact hkeep r (hrest x hnot)
        · exact (hall x hx).congr (hother x fun heq => hnot (heq ▸ hx))
      · rw [List.mem_cons, not_or] at hx
        rw [hrest x hx.2, hother x hx.1]
  | refused r before after failing text refused hsplit hlookup hrefused hbefore hrest =>
      have hnotBefore : first ∉ before := fun hx =>
        hnot (hsplit ▸ List.mem_append_left _ hx)
      refine .refused r (first :: before) after failing text refused (by rw [hsplit]; rfl) hlookup
        hrefused (fun x hx => ?_) fun x hx => ?_
      · rcases List.mem_cons.mp hx with rfl | hx
        · exact hkeep r (hrest x hnotBefore)
        · exact (hbefore x hx).congr (hother x fun heq => hnotBefore (heq ▸ hx))
      · rw [List.mem_cons, not_or] at hx
        rw [hrest x hx.2, hother x hx.1]

theorem applyEach_overrides (hnodup : settings.Nodup) (s : Settings) :
    Overrides lookup settings s (applyEach lookup settings s) := by
  -- The settings change along the list, so the induction is for all of them.
  induction settings generalizing s with
  | nil => exact .applied s (fun _ hx => absurd hx List.not_mem_nil) fun _ _ => rfl
  | cons first rest ih =>
      rcases List.nodup_cons.mp hnodup with ⟨hnot, hrest⟩
      unfold applyEach
      cases hlookup : lookup first.key with
      | none =>
          refine (ih hrest s).cons hnot ?_ fun _ _ => rfl
          unfold Setting.Overridden
          rw [hlookup]
      | some text =>
          dsimp only
          rw [first.assign_eq]
          cases hread : first.kind.read text.toList with
          | error refused =>
              -- Nothing is behind, and nothing that follows is looked at.
              exact .refused s [] rest first text refused rfl hlookup
                (Kind.read_eq_error_iff.mp hread) (fun _ hx => absurd hx List.not_mem_nil)
                fun _ _ => rfl
          | ok v =>
              refine (ih hrest (first.put v s)).cons hnot ?_ fun x hx =>
                Setting.get_put_of_ne hx v s
              unfold Setting.Overridden
              rw [hlookup]
              exact ⟨v, Kind.read_eq_ok_iff.mp hread, first.get_put_self v s⟩

theorem applyOverrides_overrides (lookup : String → Option String) (s : Settings) :
    Overrides lookup Setting.all s (s.applyOverrides lookup) :=
  applyEach_overrides Setting.nodup_all s

/-- Variables that can all be read are all applied, with only one possible outcome. -/
theorem applyOverrides_eq_ok_iff : s.applyOverrides lookup = (r, .ok ()) ↔
    ∀ setting : Setting, setting.Overridden lookup s r := by
  have h := applyOverrides_overrides lookup s
  generalize s.applyOverrides lookup = outcome at h
  cases h with
  | applied r' hall _ =>
      constructor
      · intro heq
        rw [← (Prod.mk.inj heq).1]
        exact fun setting => hall setting setting.mem_all
      · intro hr
        rw [ext_get fun setting => (hall setting setting.mem_all).unique (hr setting)]
  | refused r' before after failing text refused hsplit hlookup hrefused hbefore _ =>
      refine iff_of_false (fun heq => nomatch (Prod.mk.inj heq).2) fun hr => ?_
      exact hrefused.not_writes ((hr failing).readable text hlookup)

/-- The variables that write given settings. -/
def printed (t : Settings) (key : String) : Option String :=
  (Setting.all.find? fun setting => setting.key = key).bind fun setting =>
    (setting.get t).map setting.kind.print

theorem printed_key (t : Settings) (setting : Setting) :
    t.printed setting.key = (setting.get t).map setting.kind.print := by
  have hkey : ∀ x : Setting, decide (x.key = setting.key) = decide (x = setting) := fun x =>
    decide_eq_decide.mpr ⟨Setting.key_injective, congrArg Setting.key⟩
  have hfind : Setting.all.find? (fun x => x.key = setting.key) = some setting := by
    simp only [hkey]
    cases setting <;> rfl
  rw [printed, hfind]
  rfl

/-- Nothing that may be left out is left out. -/
structure Complete (t : Settings) : Prop where
  totalCount : t.shards.totalCount.isSome = true
  assigned : t.shards.assigned.isSome = true
  transactionTimeout : t.processors.transactionTimeout.isSome = true
  maxRetryAttempts : t.processors.maxRetryAttempts.isSome = true

theorem Complete.isSome_get (h : t.Complete) (setting : Setting) :
    (setting.get t).isSome = true := by
  cases setting
  case totalCount => exact h.totalCount
  case assigned => exact h.assigned
  case transactionTimeout => exact h.transactionTimeout
  case maxRetryAttempts => exact h.maxRetryAttempts
  all_goals rfl

/-- Settings are read back from the variables that write them. -/
theorem overridden_printed (h : t.Complete) (s : Settings) (setting : Setting) :
    setting.Overridden t.printed s t := by
  rcases Option.isSome_iff_exists.mp (h.isSome_get setting) with ⟨v, hv⟩
  unfold Setting.Overridden
  rw [printed_key, hv]
  exact ⟨v, Kind.writes_print _ v, rfl⟩

end Settings

/-- Variables are applied exactly if each of them writes a value of its setting. Then all
    settings are as their variables say, and the variables change nothing when they are applied
    again. Otherwise the first variable that writes no value is reported, with what is refused
    of its text, those before it have been applied and the settings from there on are as they
    were. Settings that leave nothing out are read back from the variables that write them,
    whatever there was before. -/
theorem overrides_apply_in_order (s : Settings) (lookup : String → Option String) :
    ((s.applyOverrides lookup).2 = .ok () ↔ ∀ setting : Setting, setting.Readable lookup) ∧
    (∀ r, s.applyOverrides lookup = (r, .ok ()) →
      (∀ setting : Setting, setting.Overridden lookup s r) ∧
      r.applyOverrides lookup = (r, .ok ())) ∧
    (∀ r e, s.applyOverrides lookup = (r, .error e) → ∃ before failing after text refused,
      Setting.all = before ++ failing :: after ∧ lookup failing.key = some text ∧
      (∀ x ∈ before, x.Readable lookup ∧ x.Overridden lookup s r) ∧
      ¬ failing.Readable lookup ∧ failing.kind.Refuses text.toList refused ∧
      e = .invalidVariable failing.key refused ∧
      ∀ x ∈ failing :: after, x.get r = x.get s) ∧
    ∀ t : Settings, t.Complete → s.applyOverrides t.printed = (t, .ok ()) := by
  refine ⟨?_, fun r hr => ?_, fun r e hr => ?_, fun t ht => ?_⟩
  · have h := Settings.applyOverrides_overrides lookup s
    generalize s.applyOverrides lookup = outcome at h
    cases h with
    | applied r hall _ =>
        exact iff_of_true rfl fun setting => (hall setting setting.mem_all).readable
    | refused r before after failing text refused hsplit hlookup hrefused _ _ =>
        exact iff_of_false (fun h => nomatch h) fun h =>
          hrefused.not_writes (h failing text hlookup)
  · have hall := Settings.applyOverrides_eq_ok_iff.mp hr
    exact ⟨hall, Settings.applyOverrides_eq_ok_iff.mpr fun setting => (hall setting).again⟩
  · have h := Settings.applyOverrides_overrides lookup s
    rw [hr] at h
    cases h with
    | refused r before after failing text refused hsplit hlookup hrefused hbefore hother =>
        refine ⟨before, failing, after, text, refused, hsplit, hlookup,
          fun x hx => ⟨(hbefore x hx).readable, hbefore x hx⟩,
          fun h => hrefused.not_writes (h text hlookup), hrefused, rfl, fun x hx => ?_⟩
        -- No setting is listed twice, so what comes later does not come before.
        have hnodup := Setting.nodup_all
        rw [hsplit] at hnodup
        exact hother x fun hmem => (List.nodup_append.mp hnodup).2.2 x hmem x hx rfl
  · exact Settings.applyOverrides_eq_ok_iff.mpr fun setting =>
      Settings.overridden_printed ht s setting

example :
    let lookup : String → Option String := fun
      | "SHARDLINE_SHARDS_ASSIGNED" => some " 3,, +1 ,"
      | "SHARDLINE_PROCESSORS_BATCH_SIZE" => some "-0"
      | _ => none
    Settings.applyOverrides {} lookup = ({ shards := { assigned := some [3, 1] } },
      .error (.invalidVariable "SHARDLINE_PROCESSORS_BATCH_SIZE" "-0")) := by decide

end Apply

end OutboxCluster
