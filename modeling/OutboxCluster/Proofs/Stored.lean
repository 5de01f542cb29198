import Mathlib.Data.List.Perm.Basic
import OutboxCluster.View.Reader
import OutboxCluster.Proofs.Grammar
import OutboxCluster.Proofs.Steady

/-!
# Stored Views Are Read Back

A view is stored as text with the record of a member, and whoever looks at the table reads it
from there. Nothing is lost on the way. The stored form is a compact object, and reading it
gives the view again, for any ids and any reading of 64 bits. Anybody else may write the text
in another way: with white space, with the fields in another order, with other fields among
them, or as an array. The texts that say a view are described by a grammar (`Says`), and
`ofText?_eq_some_iff` is that the reader accepts these and no others. A view that was read can
always be stored, because no number is read that has more than 64 bits.

An object is read by going through its fields and remembering what has been said so far. It
is simpler to think of the fields as a list of entries, one for each field, and to look at the
ids and the readings among them at the end. `fields?_eq_some_iff` is that step. From there on
an object is a list like any other, and neither the order of its fields nor the other fields
matter.

What a pulse stores is the payload of a view, and the ids of that view are those of the table
that the pulse leaves behind.

## Main definitions

* `ClusterView.Field`, `ClusterView.Says`: What a field, and a whole text, says.
* `ClusterView.Fits`: The numbers of a view have 64 bits.
* `ClusterView.Compact`: The compact form of a view.
* `ClusterView.Decodes`: Bytes are those of a text that says a view.

## Theorems

* `fields?_eq_some_iff`: The fields of an object are a list.
* `ofText?_eq_some_iff`: The texts that say a view.
* `ofText?_rearranged`: Neither the order of the fields nor other fields matter.
* `compact_iff`: The stored form is the only compact one.
* `Fits.decodes`: Stored bytes say the view.
* `Writes.payload_eq`: What a pulse stores.
* `stored_views_read_back`: All of it together.
-/

namespace OutboxCluster

namespace ClusterView

open Json

/-- What a field of an object says about a view. -/
inductive Entry where
  | agentIds (ids : List Int)
  | observedAt (reading : Int)
  | other
deriving DecidableEq, Repr

namespace Entry

/-- The ids that a field says. -/
def ids? : Entry → Option (List Int)
  | agentIds ids => some ids
  | _ => none

/-- The reading that a field says. -/
def reading? : Entry → Option Int
  | observedAt reading => some reading
  | _ => none

end Entry

/-- A text is a field of an object. A field with another name can have any value. -/
inductive Field : List Char → Entry → Prop where
  | agentIds {key value : List Char} {ids : List Int} :
      Padded (Quoted (Spells · "agent_ids".toList)) key → Padded (Integers · ids) value →
      Field (key ++ ':' :: value) (.agentIds ids)
  | observedAt {key value : List Char} {reading : Int} :
      Padded (Quoted (Spells · "observed_at".toList)) key → Padded (Integer · reading) value →
      Field (key ++ ':' :: value) (.observedAt reading)
  | other {name : String} {key value : List Char} : name ≠ "agent_ids" → name ≠ "observed_at" →
      Padded (Quoted (Spells · name.toList)) key → Value value →
      Field (key ++ ':' :: value) .other

/-- A text says a view: by an object whose fields say its ids once and its reading once, in
    whatever order and among whatever other fields, or by an array of the two. -/
inductive Says : List Char → ClusterView → Prop where
  | object {view : ClusterView} {fields : List (List Char)} {entries : List Entry} :
      List.Forall₂ Field fields entries → entries.filterMap Entry.ids? = [view.agentIds] →
      entries.filterMap Entry.reading? = [view.observedAt] →
      Says ('\x7b' :: (joined fields ++ ['\x7d'])) view
  | array {view : ClusterView} {ids reading : List Char} : Padded (Integers · view.agentIds) ids →
      Padded (Integer · view.observedAt) reading →
      Says ('[' :: (ids ++ ',' :: (reading ++ [']']))) view

section Read

variable {s rest text : List Char} {fuel : Nat} {entry : Entry} {view : ClusterView}

/-- The value of a field with a given name, and what follows it. -/
def value? (name : String) (s : List Char) : Option (Entry × List Char) :=
  if name = "agent_ids" then (integers? s).map fun (ids, rest) => (.agentIds ids, rest)
  else if name = "observed_at" then
    (integer? s).map fun (reading, rest) => (.observedAt reading, rest)
  else (skipValue? (s.length + 1) s).map fun rest => (.other, rest)

/-- A field and what follows it. -/
def field? (s : List Char) : Option (Entry × List Char) :=
  ((expect? '"' s).bind name?).bind fun (name, rest) => value? name rest

theorem field?_key {name : String} {key : List Char}
    (hkey : Padded (Quoted (Spells · name.toList)) key) (s : List Char) :
    field? (key ++ ':' :: s) = value? name s := by
  rw [field?, bind_name?_eq_some_iff.mpr ⟨key, hkey, rfl⟩, Option.bind_some]

theorem field?_sound : Sound Field field? := by
  intro s entry rest h
  rcases Option.bind_eq_some_iff.mp h with ⟨⟨name, left⟩, hname, hread⟩
  rcases bind_name?_eq_some_iff.mp hname with ⟨key, hkey, rfl⟩
  dsimp only [value?] at hread
  split at hread
  · rename_i heq
    subst heq
    rcases Option.map_eq_some_iff.mp hread with ⟨⟨ids, left⟩, hids, heq⟩
    cases heq
    rcases integers?_sound _ _ _ hids with ⟨value, hvalue, rfl⟩
    exact ⟨_, .agentIds hkey hvalue, by simp⟩
  · split at hread
    · rename_i heq
      subst heq
      rcases Option.map_eq_some_iff.mp hread with ⟨⟨reading, left⟩, hreading, heq⟩
      cases heq
      rcases integer?_sound _ _ _ hreading with ⟨value, hvalue, rfl⟩
      exact ⟨_, .observedAt hkey hvalue, by simp⟩
    · rename_i hids hreading
      rcases Option.map_eq_some_iff.mp hread with ⟨left, hskip, heq⟩
      cases heq
      rcases sound_passing.mp (skipValue?_sound _) _ _ hskip with ⟨value, hvalue, rfl⟩
      exact ⟨_, .other hids hreading hkey hvalue, by simp⟩

theorem takes_field (h : Field text entry) : Takes field? text entry := by
  intro rest hrest
  cases h with
  | agentIds hkey hvalue =>
      rcases takes_integers hvalue rest hrest with ⟨left, hread, hleft⟩
      refine ⟨left, ?_, hleft⟩
      rw [List.append_assoc, List.cons_append, field?_key hkey, value?, if_pos rfl, hread]
      rfl
  | observedAt hkey hvalue =>
      rcases takes_integer hvalue rest hrest with ⟨left, hread, hleft⟩
      refine ⟨left, ?_, hleft⟩
      rw [List.append_assoc, List.cons_append, field?_key hkey, value?, if_neg (by decide),
        if_pos rfl, hread]
      rfl
  | @other name key value hids hreading hkey hvalue =>
      have hfuel : value.length ≤ (value ++ rest).length := by simp
      rcases takes_passing.mp (takes_value hvalue _ hfuel) rest hrest with ⟨left, hread, hleft⟩
      refine ⟨left, ?_, hleft⟩
      rw [List.append_assoc, List.cons_append, field?_key hkey, value?, if_neg hids,
        if_neg hreading, hread]
      rfl

/-- A value that is said at most once. -/
def once? {α : Type} (old : Option α) : Option α → Option (Option α)
  | none => some old
  | some new => if old.isSome then none else some (some new)

theorem once?_eq_some_iff {α : Type} {old new o : Option α} :
    once? old new = some o ↔ o.toList = old.toList ++ new.toList := by
  cases new with
  | none => cases old <;> cases o <;> simp [once?, eq_comm]
  | some new =>
      cases old with
      | none => cases o <;> simp [once?, eq_comm (a := new)]
      | some old => cases o <;> simp [once?]

/-- The front of a list of one has one at most. -/
theorem exists_toList_of_append {α : Type} {front back : List α} {a : α}
    (h : front ++ back = [a]) : ∃ o : Option α, o.toList = front := by
  rcases List.append_eq_singleton_iff.mp h with ⟨rfl, _⟩ | ⟨rfl, _⟩
  · exact ⟨none, rfl⟩
  · exact ⟨some a, rfl⟩

theorem fields?_succ (fuel : Nat) (ids : Option (List Int)) (reading : Option Int)
    (s : List Char) : fields? (fuel + 1) ids reading s =
      (field? s).bind fun (entry, rest) => (once? ids entry.ids?).bind fun ids =>
        (once? reading entry.reading?).bind fun reading =>
          match skipSpace rest with
          | ',' :: rest => fields? fuel ids reading rest
          | '\x7d' :: rest => ids.bind fun ids => reading.bind fun reading =>
              some (⟨ids, reading⟩, rest)
          | _ => none := by
  have hkey : ∀ {α : Type} (f : String × List Char → Option α),
      ((expect? '"' s).bind fun rest => (name? rest).bind f) =
        ((expect? '"' s).bind name?).bind f := fun f => (Option.bind_assoc _ _ _).symm
  rw [fields?, field?]
  simp only [Option.bind_eq_bind, hkey]
  rcases (expect? '"' s).bind name? with _ | ⟨name, left⟩
  · rfl
  · -- Only the value that the name belongs to is asked for, and only that one can be a repetition.
    simp only [Option.bind_some, value?]
    by_cases hids : name = "agent_ids"
    · simp only [if_pos hids]
      rcases integers? left with _ | ⟨new, left⟩
      · cases ids <;> rfl
      · cases ids <;> rfl
    · simp only [if_neg hids]
      by_cases hreading : name = "observed_at"
      · simp only [if_pos hreading]
        rcases integer? left with _ | ⟨new, left⟩
        · cases reading <;> rfl
        · cases reading <;> rfl
      · simp only [if_neg hreading]
        rcases skipValue? (left.length + 1) left with _ | left
        · rfl
        · rfl

theorem filterMap_cons_eq {α β : Type} (f : α → Option β) (a : α) (as : List α) :
    (a :: as).filterMap f = (f a).toList ++ as.filterMap f := by
  rw [List.filterMap_cons]
  cases f a <;> rfl

/-- The fields of an object are a list, and what they say is put together at its end. -/
theorem fields?_eq_some_iff {ids : Option (List Int)} {reading : Option Int} :
    fields? fuel ids reading s = some (view, rest) ↔
      ∃ entries, list? '\x7d' (fun _ => field?) fuel s = some (entries, rest) ∧
        ids.toList ++ entries.filterMap Entry.ids? = [view.agentIds] ∧
        reading.toList ++ entries.filterMap Entry.reading? = [view.observedAt] := by
  -- What was said before stands in front of what the entries say, and one step moves the first
  -- entry over.
  induction fuel generalizing ids reading s with
  | zero => simp [fields?, list?]
  | succ fuel ih =>
      rw [fields?_succ, list?]
      rcases field? s with _ | ⟨entry, left⟩
      · simp
      · simp only [Option.bind_some]
        rcases hmore : skipSpace left with _ | ⟨c, more⟩
        · simp
        · by_cases hcomma : c = ','
          · subst hcomma
            simp only [if_true, Option.bind_eq_some_iff, Option.map_eq_some_iff, ih,
              once?_eq_some_iff]
            constructor
            · rintro ⟨ids', hids, reading', hreading, entries, hlist, hallIds, hallReading⟩
              refine ⟨entry :: entries, ⟨_, hlist, rfl⟩, ?_, ?_⟩
              · rw [filterMap_cons_eq, ← List.append_assoc, ← hids, hallIds]
              · rw [filterMap_cons_eq, ← List.append_assoc, ← hreading, hallReading]
            · rintro ⟨_, ⟨⟨entries, left'⟩, hlist, heq⟩, hallIds, hallReading⟩
              cases heq
              rw [filterMap_cons_eq, ← List.append_assoc] at hallIds hallReading
              rcases exists_toList_of_append hallIds with ⟨ids', hids⟩
              rcases exists_toList_of_append hallReading with ⟨reading', hreading⟩
              exact ⟨ids', hids, reading', hreading, entries, hlist, by rw [hids, hallIds],
                by rw [hreading, hallReading]⟩
          · by_cases hclose : c = '\x7d'
            · subst hclose
              simp only [if_neg hcomma, if_true, Option.bind_eq_some_iff, once?_eq_some_iff]
              constructor
              · rintro ⟨_, hids, _, hreading, ids', rfl, reading', rfl, heq⟩
                cases heq
                refine ⟨[entry], rfl, ?_, ?_⟩
                · rw [filterMap_cons_eq, List.filterMap_nil, List.append_nil, ← hids]
                  rfl
                · rw [filterMap_cons_eq, List.filterMap_nil, List.append_nil, ← hreading]
                  rfl
              · rintro ⟨_, heq, hids, hreading⟩
                cases heq
                rw [filterMap_cons_eq, List.filterMap_nil, List.append_nil] at hids hreading
                exact ⟨some view.agentIds, hids.symm, some view.observedAt, hreading.symm,
                  _, rfl, _, rfl, rfl⟩
            · simp [hcomma, hclose]

/-- A view and what follows it. -/
def view? (s : List Char) : Option (ClusterView × List Char) :=
  match skipSpace s with
  | '\x7b' :: rest => fields? (rest.length + 1) none none rest
  | '[' :: rest =>
    (integers? rest).bind fun (ids, rest) => (expect? ',' rest).bind fun rest =>
      (integer? rest).bind fun (reading, rest) => (expect? ']' rest).map fun rest =>
        (⟨ids, reading⟩, rest)
  | _ => none

theorem ofText?_eq (text : String) : ofText? text =
    (view? text.toList).bind fun (view, rest) =>
      if (skipSpace rest).isEmpty then some view else none := by
  dsimp only [ofText?, view?]
  generalize skipSpace text.toList = s
  -- The form is told by the first character, and the array is read in the order of its fields.
  rcases s with _ | ⟨c, s⟩
  · rfl
  · by_cases hobject : c = '\x7b'
    · subst hobject
      rfl
    · by_cases harray : c = '['
      · subst harray
        simp only [Option.bind_eq_bind, Option.bind_assoc]
        rcases integers? s with _ | ⟨ids, left⟩
        · rfl
        · simp only [Option.bind_some]
          rcases expect? ',' left with _ | left
          · rfl
          · simp only [Option.bind_some]
            rcases integer? left with _ | ⟨reading, left⟩
            · rfl
            · simp only [Option.bind_some]
              rcases expect? ']' left with _ | left
              · rfl
              · rfl
      · simp [hobject, harray]

theorem Field.append {w : List Char} (h : Field text entry) (hw : Space w) :
    Field (text ++ w) entry := by
  cases h with
  | agentIds hkey hvalue =>
      rw [List.append_assoc, List.cons_append]
      exact .agentIds hkey (hvalue.append hw)
  | observedAt hkey hvalue =>
      rw [List.append_assoc, List.cons_append]
      exact .observedAt hkey (hvalue.append hw)
  | other hids hreading hkey hvalue =>
      rw [List.append_assoc, List.cons_append]
      exact .other hids hreading hkey (hvalue.append hw)

theorem view?_sound : Sound (fun text view => Padded (Says · view) text) view? := by
  intro s view rest h
  rcases exists_space s with ⟨before, hbefore, hs⟩
  suffices hsaid : ∃ text, Says text view ∧ skipSpace s = text ++ rest by
    rcases hsaid with ⟨text, htext, heq⟩
    exact ⟨before ++ text, ⟨before, text, [], hbefore, htext, space_nil, by simp⟩,
      by rw [List.append_assoc, ← heq, ← hs]⟩
  unfold view? at h
  split at h
  · -- An object.
    rename_i inner hopen
    rcases fields?_eq_some_iff.mp h with ⟨entries, hlist, hids, hreading⟩
    rcases list?_sound (fun _ _ => field?_sound) (fun _ _ _ => Field.append) (Or.inr rfl) hlist with
      ⟨fields, _, hfields, rfl⟩
    exact ⟨_, .object hfields hids hreading, by rw [hopen]; simp⟩
  · -- An array.
    rename_i inner hopen
    rcases Option.bind_eq_some_iff.mp h with ⟨⟨ids, left⟩, hids, hafterIds⟩
    rcases Option.bind_eq_some_iff.mp hafterIds with ⟨left', hcomma, hafterComma⟩
    rcases Option.bind_eq_some_iff.mp hafterComma with ⟨⟨reading, left''⟩, hreading, hlast⟩
    rcases Option.map_eq_some_iff.mp hlast with ⟨_, hclose, heq⟩
    cases heq
    rcases integers?_sound _ _ _ hids with ⟨idsText, hidsText, rfl⟩
    rcases (expect?_eq_some_iff (by decide)).mp hcomma with ⟨w, hw, rfl⟩
    rcases integer?_sound _ _ _ hreading with ⟨readingText, hreadingText, rfl⟩
    rcases (expect?_eq_some_iff (by decide)).mp hclose with ⟨w', hw', rfl⟩
    exact ⟨_, .array (hidsText.append hw) (hreadingText.append hw'), by rw [hopen]; simp⟩
  · exact nomatch h

theorem list?_fields {fields : List (List Char)} {entries : List Entry} (hne : fields ≠ [])
    (h : List.Forall₂ Field fields entries) (rest : List Char) :
    list? '\x7d' (fun _ => field?) ((joined fields ++ '\x7d' :: rest).length + 1)
      (joined fields ++ '\x7d' :: rest) = some (entries, rest) := by
  have hfuel : (joined fields ++ '\x7d' :: rest).length + 1 =
      (joined fields).length + rest.length + 2 := by
    simp only [List.length_append, List.length_cons]
    omega
  rw [hfuel]
  exact list?_append hne (h.imp fun _ _ hfield _ _ => takes_field hfield) (Or.inr rfl)
    (Nat.le_add_right _ _) rest

/-- An object is read if each of the two is said once, and to its end. -/
theorem view?_object_iff {fields : List (List Char)} {entries : List Entry} (hne : fields ≠ [])
    (h : List.Forall₂ Field fields entries) {left : List Char} :
    view? ('\x7b' :: (joined fields ++ '\x7d' :: rest)) = some (view, left) ↔
      left = rest ∧ entries.filterMap Entry.ids? = [view.agentIds] ∧
        entries.filterMap Entry.reading? = [view.observedAt] := by
  rw [view?, skipSpace_cons (by decide)]
  refine fields?_eq_some_iff.trans ?_
  rw [list?_fields hne h]
  constructor
  · rintro ⟨_, heq, hids, hreading⟩
    cases heq
    exact ⟨rfl, hids, hreading⟩
  · rintro ⟨rfl, hids, hreading⟩
    exact ⟨entries, rfl, hids, hreading⟩

/-- Each entry is that of a field, so there are fields. -/
theorem fields_ne_nil {fields : List (List Char)} {entries : List Entry}
    (h : List.Forall₂ Field fields entries) {ids : List Int}
    (hids : entries.filterMap Entry.ids? = [ids]) : fields ≠ [] := by
  rintro rfl
  cases h
  exact nomatch hids

theorem takes_view (h : Padded (Says · view) text) : Takes view? text view := by
  rcases h with ⟨before, text, after, hbefore, htext, hafter, rfl⟩
  intro rest hrest
  refine ⟨after ++ rest, ?_, skipSpace_append hafter rest⟩
  have hspace : view? (before ++ text ++ after ++ rest) = view? (text ++ (after ++ rest)) := by
    rw [List.append_assoc, List.append_assoc, view?, skipSpace_append hbefore, view?]
  rw [hspace]
  cases htext with
  | @object _ fields entries hfields hids hreading =>
      have hread : view? ('\x7b' :: (joined fields ++ '\x7d' :: (after ++ rest))) =
          some (view, after ++ rest) :=
        (view?_object_iff (fields_ne_nil hfields hids) hfields).mpr ⟨rfl, hids, hreading⟩
      simpa using hread
  | @array _ ids reading hids hreading =>
      -- What is left of the ids and of the reading begins with the next token, up to white space.
      rw [view?, List.cons_append, skipSpace_cons (by decide)]
      rcases takes_integers hids (',' :: (reading ++ ']' :: (after ++ rest)))
        (stops_cons (by decide) _) with ⟨left, hids, hleft⟩
      rw [skipSpace_cons (by decide)] at hleft
      rcases takes_integer hreading (']' :: (after ++ rest)) (stops_cons (by decide) _) with
        ⟨left', hreading, hleft'⟩
      rw [skipSpace_cons (by decide)] at hleft'
      have hcomma : expect? ',' left = some (reading ++ ']' :: (after ++ rest)) := by
        rw [← expect?_skipSpace, hleft]
        rfl
      have hclose : expect? ']' left' = some (after ++ rest) := by
        rw [← expect?_skipSpace, hleft']
        rfl
      simp [hids, hcomma, hreading, hclose]

end Read

section Whole

theorem ofText?_eq_some_iff {text : String} {view : ClusterView} :
    ofText? text = some view ↔ Padded (Says · view) text.toList := by
  rw [ofText?_eq]
  constructor
  · intro h
    rcases Option.bind_eq_some_iff.mp h with ⟨⟨view', rest⟩, hread, hend⟩
    rcases view?_sound _ _ _ hread with ⟨said, hsaid, hsplit⟩
    dsimp only at hend
    split at hend
    · -- Only white space is left, and it belongs to the text.
      rename_i hempty
      cases hend
      rcases exists_space rest with ⟨after, hafter, hrest⟩
      rw [List.isEmpty_iff.mp hempty, List.append_nil] at hrest
      rw [hsplit, hrest]
      exact hsaid.append hafter
    · exact nomatch hend
  · intro h
    rcases takes_view h [] (fun c hc => nomatch hc) with ⟨left, hread, hleft⟩
    rw [List.append_nil] at hread
    rw [hread, Option.bind_some]
    simp only [hleft]
    rfl

example : ofText? "[ [1, -2],\n7 ] " = some ⟨[1, -2], 7⟩ ∧ ofText? "[[1],-0]" = none := by decide

/-- The text of an object with these fields. -/
def objectText (fields : List (List Char)) : String :=
  String.ofList ('\x7b' :: (joined fields ++ ['\x7d']))

/-- An object says a view by what its fields say of ids and reading, and each of the two must
    be said once. -/
theorem ofText?_objectText {fields : List (List Char)} {entries : List Entry}
    (h : List.Forall₂ Field fields entries) {view : ClusterView} :
    ofText? (objectText fields) = some view ↔
      entries.filterMap Entry.ids? = [view.agentIds] ∧
        entries.filterMap Entry.reading? = [view.observedAt] := by
  rw [objectText]
  constructor
  · intro hread
    rw [ofText?_eq, String.toList_ofList] at hread
    rcases Option.bind_eq_some_iff.mp hread with ⟨⟨view', left⟩, hview, hend⟩
    have hne : fields ≠ [] := by
      rintro rfl
      exact nomatch hview
    rcases (view?_object_iff hne h).mp hview with ⟨rfl, hids, hreading⟩
    cases hend
    exact ⟨hids, hreading⟩
  · rintro ⟨hids, hreading⟩
    rw [ofText?_eq_some_iff, String.toList_ofList]
    exact .of_self (.object h hids hreading)

/-- The order of the fields does not matter. -/
theorem ofText?_perm {fields fields' : List (List Char)} {entries : List Entry}
    (h : List.Forall₂ Field fields entries) (hperm : fields'.Perm fields) :
    ofText? (objectText fields') = ofText? (objectText fields) := by
  rcases List.perm_comp_forall₂ hperm h with ⟨entries', h', hentries⟩
  -- A list of one is the only one with its members.
  have hone : ∀ {α : Type} {f : Entry → Option α} {a : α},
      entries'.filterMap f = [a] ↔ entries.filterMap f = [a] := by
    intro α f a
    rw [← List.perm_singleton, ← List.perm_singleton]
    exact ⟨(hentries.filterMap f).symm.trans, (hentries.filterMap f).trans⟩
  refine Option.ext fun view => ?_
  rw [ofText?_objectText h', ofText?_objectText h, hone, hone]

/-- Nor does a field with another name, whatever its value is. -/
theorem ofText?_cons_other {other : List Char} {fields : List (List Char)} {entries : List Entry}
    (hother : Field other .other) (h : List.Forall₂ Field fields entries) :
    ofText? (objectText (other :: fields)) = ofText? (objectText fields) := by
  refine Option.ext fun view => ?_
  rw [ofText?_objectText (.cons hother h), ofText?_objectText h]
  exact Iff.rfl

/-- Other fields can be put in anywhere. -/
theorem ofText?_rearranged {fields fields' others : List (List Char)} {entries : List Entry}
    (h : List.Forall₂ Field fields entries) (hothers : ∀ other ∈ others, Field other .other)
    (hperm : fields'.Perm (others ++ fields)) :
    ofText? (objectText fields') = ofText? (objectText fields) := by
  have hfront : ∃ entries', List.Forall₂ Field (others ++ fields) entries' ∧
      ofText? (objectText (others ++ fields)) = ofText? (objectText fields) := by
    clear hperm
    induction others with
    | nil => exact ⟨entries, h, rfl⟩
    | cons other others ih =>
        rcases List.forall_mem_cons.mp hothers with ⟨hother, hothers⟩
        rcases ih hothers with ⟨entries', h', heq⟩
        exact ⟨.other :: entries', .cons hother h', (ofText?_cons_other hother h').trans heq⟩
  rcases hfront with ⟨entries', h', heq⟩
  exact (ofText?_perm h' hperm).trans heq

end Whole

section Write

variable {view : ClusterView}

/-- Ids and reading are numbers of 64 bits. -/
structure Fits (view : ClusterView) : Prop where
  agentIds : ∀ id ∈ view.agentIds, Text.fitsInt64 id = true
  observedAt : Text.fitsInt64 view.observedAt = true

/-- The compact form of a view: its ids, then its reading, and no white space. -/
structure Compact (text : List Char) (view : ClusterView) : Prop where
  fields : ∃ ids reading, Integers ids view.agentIds ∧ Integer reading view.observedAt ∧
    text = "\x7b\"agent_ids\":".toList ++ ids ++ ",\"observed_at\":".toList ++ reading ++ ['\x7d']
  not_isSpace : ∀ c ∈ text, ¬ IsSpace c

theorem toList_text (view : ClusterView) : view.text.toList =
    "\x7b\"agent_ids\":".toList ++ integersText view.agentIds ++ ",\"observed_at\":".toList ++
      (toString view.observedAt).toList ++ ['\x7d'] := by
  have hids : (commaSeparated view.agentIds).toList =
      joined (view.agentIds.map fun id => (toString id).toList) := by
    rw [commaSeparated, String.toList_intercalate, List.map_map]
    rfl
  have htext : view.text = "\x7b\"agent_ids\":[" ++ commaSeparated view.agentIds ++
      "],\"observed_at\":" ++ toString view.observedAt ++ "\x7d" := rfl
  -- The brackets belong to the ids.
  have hopen : "\x7b\"agent_ids\":[".toList = "\x7b\"agent_ids\":".toList ++ ['['] := by decide
  have hclose : "],\"observed_at\":".toList = ']' :: ",\"observed_at\":".toList := by decide
  have hend : "\x7d".toList = ['\x7d'] := by decide
  rw [htext, String.toList_append, String.toList_append, String.toList_append,
    String.toList_append, hids, hopen, hclose, hend, integersText]
  simp only [List.append_assoc, List.cons_append, List.nil_append]

theorem not_isSpace_of_all {s : List Char} (h : s.all (fun c => ¬ IsSpace c) = true) :
    ∀ c ∈ s, ¬ IsSpace c :=
  fun c hc => of_decide_eq_true (List.all_eq_true.mp h c hc)

theorem compact_iff {text : List Char} :
    Compact text view ↔ view.Fits ∧ text = view.text.toList := by
  rw [toList_text]
  constructor
  · rintro ⟨⟨ids, reading, hids, hreading, rfl⟩, hspace⟩
    have hidsSpace : ∀ c ∈ ids, ¬ IsSpace c := fun c hc => hspace c (by simp [hc])
    rw [hids.eq_integersText hidsSpace, (integer_iff.mp hreading).1]
    exact ⟨⟨hids.fits, hreading.fits⟩, rfl⟩
  · rintro ⟨hfits, rfl⟩
    refine ⟨⟨_, _, integers_integersText hfits.agentIds,
      integer_iff.mpr ⟨rfl, hfits.observedAt⟩, rfl⟩, ?_⟩
    simp only [List.forall_mem_append, List.forall_mem_singleton]
    exact ⟨⟨⟨⟨not_isSpace_of_all (by decide), not_isSpace_integersText _⟩,
      not_isSpace_of_all (by decide)⟩, not_isSpace_toString _⟩, by decide⟩

/-- A name without escapes. -/
theorem quoted_name {name : List Char}
    (h : name.all (fun c => 32 ≤ c.toNat ∧ c ≠ '"' ∧ c ≠ '\\') = true) :
    Padded (Quoted (Spells · name)) ('"' :: (name ++ ['"'])) := by
  have hspells : Spells name name := by
    induction name with
    | nil => exact .nil
    | cons c name ih =>
        rw [List.all_cons, Bool.and_eq_true, decide_eq_true_eq] at h
        rcases h with ⟨⟨hlow, hquote, hslash⟩, hrest⟩
        exact .plain hlow hquote hslash (ih hrest)
  exact .of_self ⟨name, hspells, rfl⟩

theorem says_of_compact {text : List Char} (h : Compact text view) : Says text view := by
  rcases h.fields with ⟨ids, reading, hids, hreading, rfl⟩
  have hagentIds : Field ("\"agent_ids\"".toList ++ ':' :: ids) (.agentIds view.agentIds) :=
    .agentIds (quoted_name (by decide)) (.of_self hids)
  have hobservedAt : Field ("\"observed_at\"".toList ++ ':' :: reading)
      (.observedAt view.observedAt) :=
    .observedAt (quoted_name (by decide)) (.of_self hreading)
  have hobject : Says _ view := .object (.cons hagentIds (.cons hobservedAt .nil)) rfl rfl
  rw [joined_cons _ (List.cons_ne_nil _ _), joined_singleton] at hobject
  simpa using hobject

/-- What a field says are numbers of 64 bits. -/
theorem Field.fits {text : List Char} {entry : Entry} (h : Field text entry) :
    (∀ ids ∈ entry.ids?, ∀ id ∈ ids, Text.fitsInt64 id = true) ∧
      ∀ reading ∈ entry.reading?, Text.fitsInt64 reading = true := by
  cases h with
  | agentIds _ hids =>
      refine ⟨fun ids heq => ?_, (fun _ heq => nomatch heq)⟩
      cases heq
      exact hids.elim Integers.fits
  | observedAt _ hreading =>
      refine ⟨(fun _ heq => nomatch heq), fun reading heq => ?_⟩
      cases heq
      exact hreading.elim Integer.fits
  | other _ _ _ _ => exact ⟨(fun _ heq => nomatch heq), (fun _ heq => nomatch heq)⟩

theorem Says.fits {text : List Char} (h : Says text view) : view.Fits := by
  cases h with
  | object hfields hids hreading =>
      have hentries := forall_of_forall₂ hfields.flip fun _ _ hfield => hfield.fits
      have hids' := List.mem_singleton_self view.agentIds
      have hreading' := List.mem_singleton_self view.observedAt
      rw [← hids, List.mem_filterMap] at hids'
      rw [← hreading, List.mem_filterMap] at hreading'
      rcases hids' with ⟨entry, hentry, heq⟩
      rcases hreading' with ⟨entry', hentry', heq'⟩
      exact ⟨(hentries entry hentry).1 _ heq, (hentries entry' hentry').2 _ heq'⟩
  | array hids hreading => exact ⟨hids.elim Integers.fits, hreading.elim Integer.fits⟩

end Write

section Payload

variable {view : ClusterView}

theorem toList_loop (bs : ByteArray) (i : Nat) (acc : List UInt8) :
    ByteArray.toList.loop bs i acc = acc.reverse ++ bs.data.toList.drop i := by
  fun_induction ByteArray.toList.loop bs i acc with
  | case1 i acc h ih =>
      have hlt : i < bs.data.toList.length := h
      rw [ih, List.drop_eq_getElem_cons hlt]
      simp [ByteArray.get!, h]
  | case2 i acc h =>
      rw [List.drop_eq_nil_of_le (by simpa using h), List.append_nil]

/-- No two texts have the same bytes. -/
theorem toUTF8_toList_inj {first second : String} :
    first.toUTF8.toList = second.toUTF8.toList ↔ first = second := by
  have hdata : ∀ bs : ByteArray, bs.toList = bs.data.toList := fun bs => toList_loop bs 0 []
  constructor
  · intro h
    rw [hdata, hdata, Array.toList_inj] at h
    exact String.toByteArray_inj.mp (ByteArray.ext h)
  · exact congrArg fun text : String => text.toUTF8.toList

/-- Bytes say a view: they are those of one text, and the view is what it says. -/
def Decodes (bytes : List UInt8) (view : ClusterView) : Prop :=
  ∃ text : String, (∀ other : String, other.toUTF8.toList = bytes ↔ other = text) ∧
    ofText? text = some view

/-- A view whose numbers have 64 bits is what its stored form says. -/
theorem Fits.ofText?_text (h : view.Fits) : ofText? view.text = some view :=
  ofText?_eq_some_iff.mpr (.of_self (says_of_compact (compact_iff.mpr ⟨h, rfl⟩)))

theorem Fits.decodes (h : view.Fits) : Decodes view.payload view :=
  ⟨view.text, fun _ => toUTF8_toList_inj, h.ofText?_text⟩

/-- What is read has 64 bits, so it can be stored and read again. -/
theorem fits_of_ofText? {text : String} (h : ofText? text = some view) : view.Fits :=
  (ofText?_eq_some_iff.mp h).elim Says.fits

end Payload

end ClusterView

namespace Link

variable {l : Link} {now : Int} {t t' : AgentTable} {me : Agent}

/-- A pulse stores the ids that the table lists for the role when it has come through, and
    the reading that it began with. -/
theorem Writes.payload_eq (hord : t.Ordered) (h : l.Writes now t me t') :
    me.payload = some (ClusterView.payload ⟨t'.roll l.role, now⟩) := by
  rcases h.decides hord with ⟨own, live, t₁, hdec, hme, _, _, _, ht', _⟩
  rw [ht', AgentTable.roll_overwrite, AgentTable.roll_eq_of_list hdec.list_eq, hme]
  rfl

/-- A pulse that does not break down and leaves no failures counted has come through. -/
theorem pulse_writes {moment : Moment} {access : Access}
    (hwhole : (l.pulse moment access t).broken = false)
    (h : (l.pulse moment access t).link.failures = 0) :
    ∃ me, l.Writes moment.wall t me (l.pulse moment access t).table ∧
      (l.pulse moment access t).link.snapshot.agentId = some me.id := by
  rcases l.pulse_cases moment access t with ⟨me, reported, hwrites, hlink, _⟩ |
    ⟨selfId, reported, _, hlink, _⟩ | ⟨hbroken, _⟩
  · exact ⟨me, hwrites, by rw [hlink]; rfl⟩
  · rw [hlink] at h
    exact absurd h (Nat.succ_ne_zero _)
  · exact Bool.noConfusion (hwhole.symm.trans hbroken)

end Link

namespace ClusterView

open Json

/-- Views go through their stored form unchanged. A view whose numbers have 64 bits has one
    compact form, which is what is stored; the text and its bytes say that view. The texts that
    say a view are those of the grammar, with any white space, and it does not matter in which
    order the fields of an object are and which other fields are among them. What such a text
    says can be stored and read again. And what a pulse stores are the ids of the table and the
    reading that it decided on. -/
theorem stored_views_read_back :
    (∀ view : ClusterView, view.Fits →
      (∀ text, Compact text view ↔ text = view.text.toList) ∧
      ofText? view.text = some view ∧ Decodes view.payload view) ∧
    (∀ (text : String) (view : ClusterView),
      (ofText? text = some view ↔ Padded (Says · view) text.toList) ∧
      (ofText? text = some view → view.Fits ∧ ofText? view.text = some view)) ∧
    (∀ (fields fields' others : List (List Char)) (entries : List Entry),
      List.Forall₂ Field fields entries → (∀ other ∈ others, Field other .other) →
      fields'.Perm (others ++ fields) →
      ofText? (objectText fields') = ofText? (objectText fields)) ∧
    ∀ (l : Link) (moment : Moment) (access : Access) (t : AgentTable), t.Ordered →
      (l.pulse moment access t).broken = false → (l.pulse moment access t).link.failures = 0 →
      ∃ me bytes, (l.pulse moment access t).table.Holds me ∧
        (l.pulse moment access t).link.snapshot.agentId = some me.id ∧ me.payload = some bytes ∧
        ∀ view : ClusterView, view.agentIds = (l.pulse moment access t).table.roll l.role →
          view.observedAt = moment.wall → view.Fits → Decodes bytes view := by
  refine ⟨fun view hfits => ⟨fun text => ?_, hfits.ofText?_text, hfits.decodes⟩,
    fun text view => ⟨ofText?_eq_some_iff, fun h => ?_⟩,
    fun fields fields' others entries => ofText?_rearranged,
    fun l moment access t hord hwhole h => ?_⟩
  · rw [compact_iff, and_iff_right hfits]
  · have hfits := fits_of_ofText? h
    exact ⟨hfits, hfits.ofText?_text⟩
  · rcases Link.pulse_writes hwhole h with ⟨me, hwrites, hid⟩
    refine ⟨me, _, hwrites.holds hord, hid, hwrites.payload_eq hord, ?_⟩
    rintro ⟨_, _⟩ rfl rfl hfits
    exact hfits.decodes

/-- A text with the reading in front, with an escape in a name and with another field among
    them, says the same view as its stored form. -/
theorem stored_views_read_back_reordered :
    let view : ClusterView := ⟨[9223372036854775807, -7], -9223372036854775808⟩
    let text := " \x7b\"observed_at\" : -9223372036854775808," ++
      " \"other\":\x7b\"agent_ids\":[[], -1.5e3]\x7d,\n" ++
      "\"agent\\u005fids\": [9223372036854775807,-7]\t\x7d"
    let ids := "\"agent_ids\":[]".toList
    let reading := "\"observed_at\":5".toList
    let other := "\"x\":null".toList
    let l : Link := { name := "a", role := "r", configured := none, expiration := 3000 }
    let attempt := l.pulse ⟨500, 1000, 600⟩ {} {}
    ofText? text = some view ∧ Padded (Says · view) text.toList ∧ view.text ≠ text ∧
    Compact view.text.toList view ∧ ofText? view.text = some view ∧ Decodes view.payload view ∧
    ofText? (objectText [reading, other, ids]) = ofText? (objectText [ids, reading]) ∧
    ofText? (objectText [ids, reading]) = some ⟨[], 5⟩ ∧
    ∃ me bytes, attempt.table.Holds me ∧ me.payload = some bytes ∧ Decodes bytes ⟨[1], 1000⟩ := by
  intro view text ids reading other l attempt
  rcases stored_views_read_back with ⟨hstore, hread, hmoved, hpulse⟩
  have htext : ofText? text = some view := by decide +kernel
  rcases hread text view with ⟨haccepts, hagain⟩
  rcases hagain htext with ⟨hfits, hback⟩
  rcases hstore view hfits with ⟨hcompact, _, hdecodes⟩
  -- The fields of the two objects.
  have hids : Field ids (.agentIds []) :=
    .agentIds (quoted_name (by decide)) (.of_self (.empty space_nil))
  have hreading : Field reading (.observedAt 5) :=
    .observedAt (quoted_name (by decide)) (.of_self (integer_iff.mpr ⟨by decide, by decide⟩))
  have hname : Padded (Quoted (Spells · "x".toList)) "\"x\"".toList := quoted_name (by decide)
  have hother : Field other .other :=
    .other (by decide) (by decide) hname (.word (by decide))
  rcases hpulse l ⟨500, 1000, 600⟩ {} {} Table.ordered_empty (by decide +kernel)
    (by decide +kernel) with ⟨me, bytes, hheld, _, hbytes, hall⟩
  exact ⟨htext, haccepts.mp htext, by decide +kernel, (hcompact _).mpr rfl, hback, hdecodes,
    hmoved [ids, reading] _ [other] _ (.cons hids (.cons hreading .nil))
      (List.forall_mem_singleton.mpr hother) (by decide +kernel), by decide +kernel,
    me, bytes, hheld, hbytes, hall ⟨[1], 1000⟩ (by decide +kernel) rfl ⟨by decide, by decide⟩⟩

end ClusterView

end OutboxCluster
