import Mathlib.Data.Set.List
import OutboxCluster.Proofs.Record
import OutboxCluster.Proofs.Requests

/-!
# Ids in the Order of Registration

Much hangs on the ids of a table. Of two agents that claim one shard the older one wins,
and the older one is the one with the smaller id; a member looks up its place in a list of
ids in ascending order; and events are handed on in the order of theirs. All of this is
wrong as soon as an id is given twice, or a later row gets a smaller one.

The tables are not what the law is about. A row may be gone, and its id still counts, so
what has to be remembered is which ids were ever given. `Granted` reads this off the
answers of the store, as its users would, and never looks at a table. Ids that a session
gives are on trial until it is committed; if it is dropped, they were never given.

`Table.Numbers` then ties a table to the ids that were given: rows stand in ascending
order, each under a given id, and the counter has not fallen behind any of them. The one
row that is added at a time goes above the counter, and nothing else moves it, apart from a
session that is dropped with its copy.

Rows that are stored as they are, past the store, may interfere with a session that is
open, and are left out.

## Main definitions

* `Request.agentIds`, `Request.eventIds`: The ids that an answer gives.
* `Granted`, `Granted.after`: The ids that were given so far.
* `Table.Numbers`: A table and the ids that were given in it.
* `AgentTable.Legible`: Every record can be read.
* `Store.Numbered`: The same of both tables and the open session.

## Theorems

* `Numbers.insert`, `Numbers.insertAll`, `Numbers.delete`: What an operation does.
* `numbered_step`, `numbered_run`: Every request keeps this.
* `lt_agentIds`, `lt_eventIds`: An id that is given is above all that were.
* `agents_run_of_dropped`: A session that is dropped has done nothing.
* `session_run`: The counter of a session does not go back.
* `ids_order_registrations`: Ids are unique and ascend, whatever is asked of a store.
-/

namespace OutboxCluster

namespace Request

/-- Whether the request stores a row as it is. -/
def isRaw : Request → Bool
  | .putAgent _ | .putEvent _ => true
  | _ => false

/-- Whether the request begins or ends a session. -/
def turnsSession : Request → Bool
  | .begin | .commit | .rollback | .close | .reopen => true
  | _ => false

/-- The ids of agents that an answer gives. -/
def agentIds : Request → Except StoreError Answer → List Int
  | .create _, .ok (.agent a) => [a.id]
  | _, _ => []

/-- The ids of events that an answer gives. Events that are added together have ids in a
    row, and the answer tells the last one. -/
def eventIds : Request → Except StoreError Answer → List Int
  | .enqueue .., .ok (.id id) | .enqueueIn .., .ok (.id id) => [id]
  | .enqueueAll events, .ok (.id last) =>
    (List.range events.length).map fun i : Nat => last - events.length + 1 + i
  | _, _ => []

/-- The ids of events that an answer gives for good. -/
def keptEventIds (r : Request) (answer : Except StoreError Answer) : List Int :=
  match r with
  | .enqueueIn _ _ false => []
  | r => r.eventIds answer

end Request

/-- The ids that were given so far. -/
structure Granted where
  /-- Those of agents, in sessions that were committed. -/
  agents : List Int := []
  /-- Those of agents, in the session that is open. -/
  pending : List Int := []
  events : List Int := []
deriving DecidableEq, Repr

namespace Granted

/-- Take note of an answer. -/
def note (g : Granted) (r : Request) (answer : Except StoreError Answer) : Granted :=
  match r, answer with
  | .commit, .ok _ => { g with agents := g.agents ++ g.pending, pending := [] }
  | .begin, .ok _ | .rollback, .ok _ | .close, .ok _ | .reopen, .ok _ => { g with pending := [] }
  | r, answer =>
    { g with
      pending := g.pending ++ r.agentIds answer, events := g.events ++ r.keptEventIds answer }

/-- The ids that were given after these requests, where `g` are those before. -/
def after (s : Store) (g : Granted) : List Request → Granted
  | [] => g
  | r :: requests => after (s.handle r).2 (g.note r (s.handle r).1) requests

end Granted

/-- Rows stand in ascending order under ids that were given, and the counter has not
    fallen behind any of those. -/
structure Table.Numbers {α : Type} (t : Table α) (given : List Int) : Prop where
  ordered : t.Ordered
  of_row : ∀ id ∈ t.ids, id ∈ given
  le_lastId : ∀ id ∈ given, id ≤ t.lastId

theorem Table.numbers_empty {α : Type} : Numbers ({} : Table α) [] where
  ordered := ordered_empty
  of_row := fun _ hid => absurd hid List.not_mem_nil
  le_lastId := fun _ hid => absurd hid List.not_mem_nil

namespace Table.Numbers

variable {α : Type} {t : Table α} {given : List Int}

theorem lt_nextId (h : t.Numbers given) {id : Int} (hid : id ∈ given) : id < t.nextId := by
  have hle := h.le_lastId id hid
  simp only [nextId]
  omega

theorem nodup (h : t.Numbers given) : t.ids.Nodup := by
  refine (List.pairwise_map.mpr h.ordered.ascending).imp (fun {i j} hlt heq => ?_)
  omega

theorem append_nil (h : t.Numbers given) : t.Numbers (given ++ []) := by
  rw [List.append_nil]
  exact h

theorem insert (h : t.Numbers given) (row : α) :
    (t.insert row).Numbers (given ++ [t.nextId]) where
  ordered := h.ordered.insert row
  of_row := by
    intro id hid
    rw [List.mem_append, List.mem_singleton]
    exact (mem_ids_insert.mp hid).imp_left (h.of_row id)
  le_lastId := by
    intro id hid
    rw [lastId_insert]
    rcases List.mem_append.mp hid with hbefore | hnew
    · exact Int.le_of_lt (h.lt_nextId hbefore)
    · exact Int.le_of_eq (List.mem_singleton.mp hnew)

/-- Rows that are added together get ids in a row. -/
theorem insertAll (rows : List α) (h : t.Numbers given) : (t.insertAll rows).Numbers
    (given ++ (List.range rows.length).map fun i : Nat => t.lastId + 1 + i) := by
  rw [insertAll_eq_foldl]
  induction rows generalizing t given with
  | nil => simpa only [List.foldl_nil, List.length_nil, List.range_zero, List.map_nil,
      List.append_nil] using h
  | cons row rows ih =>
      have hrest := ih (h.insert row)
      -- The first row takes the next id, and the others are counted from there.
      have hids : (List.range (rows.length + 1)).map (fun i : Nat => t.lastId + 1 + i) =
          [t.nextId] ++ (List.range rows.length).map fun i : Nat => t.nextId + 1 + i := by
        rw [List.range_succ_eq_map, List.map_cons, List.map_map, List.singleton_append]
        refine congrArg₂ List.cons ?_ (List.map_congr_left fun i _ => ?_)
        · simp only [nextId]
          omega
        · simp only [Function.comp_apply, nextId]
          omega
      rw [List.length_cons, hids, ← List.append_assoc]
      exact hrest

theorem delete (h : t.Numbers given) (ids : List Int) : (t.delete ids).Numbers given where
  ordered := h.ordered.delete ids
  of_row := fun id hid => h.of_row id (mem_ids_delete.mp hid).1
  le_lastId := h.le_lastId

theorem modify (h : t.Numbers given) (id : Int) (change : α → α) :
    (t.modify id change).Numbers given where
  ordered := h.ordered.modify id change
  of_row := by
    intro other hother
    rcases mem_ids.mp hother with ⟨row, hrow⟩
    rcases mem_modify.mp hrow with ⟨hrow, _⟩ | ⟨row', hrow', heq⟩
    · exact h.of_row other (mem_ids_of_mem hrow)
    · rw [Prod.mk.injEq] at heq
      rw [heq.1]
      exact h.of_row id (mem_ids_of_mem hrow')
  le_lastId := h.le_lastId

end Table.Numbers

namespace AgentTable

/-- Every record is the stored form of an agent. -/
def Legible (t : AgentTable) : Prop := ∀ p ∈ t.rows, ∃ a : Agent, p = (a.id, a.row)

variable {t : AgentTable}

theorem Legible.insert (h : t.Legible) (a : Agent) : Legible (t.insert a.row) := by
  intro p hp
  rcases Table.mem_insert.mp hp with hbefore | rfl
  · exact h p hbefore
  · exact ⟨{ a with id := t.nextId }, rfl⟩

theorem Legible.delete (h : t.Legible) (ids : List Int) : Legible (t.delete ids) :=
  fun p hp => h p (Table.mem_delete.mp hp).1

theorem Legible.overwrite (h : t.Legible) (a : Agent) : Legible (t.overwrite a) := by
  intro p hp
  rcases Table.mem_modify.mp hp with ⟨hp, _⟩ | ⟨row, hrow, rfl⟩
  · exact h p hp
  · -- Where the roles differ the row is left as it was.
    by_cases hrole : row.role = a.role
    · rw [if_pos hrole]
      exact ⟨a, rfl⟩
    · rw [if_neg hrole]
      exact h (a.id, row) hrow

/-- The records of a role can be listed. -/
theorem Legible.exists_list (h : t.Legible) (role : String) :
    ∃ agents, t.list role = .ok agents ∧
      agents.map (fun a => (a.id, a.row)) = t.rows.filter (·.2.role == role) := by
  have hstored : t.rows.filter (·.2.role == role) ∈
      Set.range (List.map fun a : Agent => (a.id, a.row)) := by
    rw [Set.range_list_map]
    intro p hp
    rcases h p (List.mem_of_mem_filter hp) with ⟨a, rfl⟩
    exact ⟨a, rfl⟩
  rcases hstored with ⟨agents, hagents⟩
  exact ⟨agents, list_eq_ok_iff.mpr hagents.symm, hagents⟩

/-- A list is in ascending order of the ids. -/
theorem ascending_list (hord : t.Ordered) {role : String} {agents : List Agent}
    (h : t.list role = .ok agents) : agents.Pairwise (·.id < ·.id) := by
  have hrows := hord.ascending.filter (·.2.role == role)
  rw [list_eq_ok_iff.mp h, List.pairwise_map] at hrows
  exact hrows

/-- A record that is added stands last in the list of its role. -/
theorem list_insert {role : String} {agents : List Agent} (h : t.list role = .ok agents)
    {a : Agent} (hrole : a.role = role) :
    AgentTable.list (t.insert a.row) role = .ok (agents ++ [{ a with id := t.nextId }]) := by
  rw [list_eq_ok_iff] at h ⊢
  have hnew : [(t.nextId, a.row)].filter (·.2.role == role) = [(t.nextId, a.row)] :=
    List.filter_cons_of_pos (beq_iff_eq.mpr hrole)
  rw [Table.insert, List.filter_append, h, hnew, List.map_append]
  rfl

end AgentTable

namespace Store

/-- Both tables and the copy of the open session go by the ids that were given. The copy
    has never had fewer than the table. -/
structure Numbered (s : Store) (g : Granted) : Prop where
  agents : s.agents.Numbers g.agents
  outbox : s.outbox.Numbers g.events
  legible : s.agents.Legible
  session : ∀ copy, s.session = some copy → copy.Numbers (g.agents ++ g.pending) ∧ copy.Legible

variable {s : Store} {g : Granted}

theorem numbered_empty : Numbered {} {} where
  agents := Table.numbers_empty
  outbox := Table.numbers_empty
  legible := fun _ h => nomatch h
  session := fun _ h => nomatch h

/-- Every other request than those on sessions adds the ids that its answer gives. -/
theorem note_of_turnsSession {r : Request} (hturns : r.turnsSession = false) (g : Granted)
    (answer : Except StoreError Answer) : g.note r answer =
      { g with
        pending := g.pending ++ r.agentIds answer
        events := g.events ++ r.keptEventIds answer } := by
  cases r <;> first | rfl | exact Bool.noConfusion hturns

/-- A request that is refused gives no ids. -/
theorem note_error (g : Granted) (r : Request) (e : StoreError) : g.note r (.error e) = g := by
  cases r with
  | enqueueIn key payload commits =>
      cases commits <;>
        simp only [Granted.note, Request.agentIds, Request.keptEventIds, Request.eventIds,
          List.append_nil]
  | _ =>
      simp only [Granted.note, Request.agentIds, Request.keptEventIds, Request.eventIds,
        List.append_nil]

section Steps

variable {r : Request} {answer : Except StoreError Answer} {s' : Store}

/-- A closed store stays as it is, and so does the book. -/
theorem numbered_whenOpen (h : s.Numbered g) (hact : s'.Numbered (g.note r answer)) :
    (s.whenOpen (answer, s')).2.Numbered (g.note r (s.whenOpen (answer, s')).1) := by
  unfold whenOpen
  split
  · rw [note_error]
    exact h
  · exact hact

/-- So it is with a session that is not open, or that refuses a request. -/
theorem numbered_inSession (h : s.Numbered g)
    {act : AgentTable → Except StoreError (Answer × AgentTable)}
    (hact : ∀ copy answer copy', s.session = some copy → act copy = .ok (answer, copy') →
      ({ s with session := some copy' } : Store).Numbered (g.note r (.ok answer))) :
    (s.inSession act).2.Numbered (g.note r (s.inSession act).1) := by
  unfold inSession
  cases hsession : s.session with
  | none =>
      dsimp only
      rw [note_error]
      exact h
  | some copy =>
      dsimp only
      cases hdone : act copy with
      | error e =>
          dsimp only
          rw [note_error]
          exact h
      | ok outcome => exact hact copy outcome.1 outcome.2 hsession hdone

/-- The session goes on with another copy, which has the ids that the answer gives. -/
theorem Numbered.withCopy (h : s.Numbered g) (hturns : r.turnsSession = false)
    (hevents : r.keptEventIds answer = []) {copy : AgentTable}
    (hnumbers : copy.Numbers ((g.agents ++ g.pending) ++ r.agentIds answer))
    (hlegible : copy.Legible) :
    ({ s with session := some copy } : Store).Numbered (g.note r answer) := by
  rw [note_of_turnsSession hturns, hevents, List.append_nil]
  refine ⟨h.agents, h.outbox, h.legible, fun copy' hcopy' => ?_⟩
  rw [← Option.some.inj hcopy', ← List.append_assoc]
  exact ⟨hnumbers, hlegible⟩

/-- The outbox goes on with the ids that the answer gives. -/
theorem Numbered.withOutbox (h : s.Numbered g) (hturns : r.turnsSession = false)
    (hagents : r.agentIds answer = []) {outbox : Outbox}
    (hnumbers : outbox.Numbers (g.events ++ r.keptEventIds answer)) :
    ({ s with outbox } : Store).Numbered (g.note r answer) := by
  rw [note_of_turnsSession hturns, hagents, List.append_nil]
  exact ⟨h.agents, hnumbers, h.legible, h.session⟩

/-- Nothing was changed, and no ids were given. -/
theorem Numbered.asBefore (h : s.Numbered g) (hturns : r.turnsSession = false)
    (hagents : r.agentIds answer = []) (hevents : r.keptEventIds answer = []) :
    s.Numbered (g.note r answer) := by
  refine h.withOutbox hturns hagents ?_
  rw [hevents, List.append_nil]
  exact h.outbox

/-- The session is over, and its copy is gone. -/
theorem Numbered.dropped (h : s.Numbered g) (closed : Bool) :
    ({ s with session := none, closed } : Store).Numbered { g with pending := [] } :=
  ⟨h.agents, h.outbox, h.legible, fun _ hnone => nomatch hnone⟩

/-- Every request keeps the book right. -/
theorem numbered_step (h : s.Numbered g) (hown : r.isRaw = false) :
    (s.handle r).2.Numbered (g.note r (s.handle r).1) := by
  cases r with
  | begin =>
      refine numbered_whenOpen h ⟨h.agents, h.outbox, h.legible, fun copy hcopy => ?_⟩
      -- The session begins with what was committed.
      rw [← Option.some.inj hcopy]
      dsimp only [Granted.note]
      rw [List.append_nil]
      exact ⟨h.agents, h.legible⟩
  | commit =>
      dsimp only [handle]
      cases hsession : s.session with
      | none =>
          dsimp only
          rw [note_error]
          exact h
      | some copy =>
          rcases h.session copy hsession with ⟨hnumbers, hlegible⟩
          exact ⟨hnumbers, h.outbox, hlegible, fun _ hnone => nomatch hnone⟩
  | rollback => exact h.dropped s.closed
  | close => exact h.dropped true
  | reopen => exact h.dropped false
  | list role =>
      refine numbered_inSession h fun copy answer copy' hsession hdone => ?_
      rcases h.session copy hsession with ⟨hnumbers, hlegible⟩
      -- A list is an answer, and the copy stays as it is.
      rcases hlegible.exists_list role with ⟨agents, hlist, _⟩
      rw [hlist] at hdone
      cases hdone
      exact h.withCopy rfl rfl hnumbers.append_nil hlegible
  | create agent =>
      refine numbered_inSession h fun copy answer copy' hsession hdone => ?_
      cases hdone
      rcases h.session copy hsession with ⟨hnumbers, hlegible⟩
      exact h.withCopy rfl rfl (hnumbers.insert agent.row) (hlegible.insert agent)
  | update agent =>
      refine numbered_inSession h fun copy answer copy' hsession hdone => ?_
      cases hdone
      rcases h.session copy hsession with ⟨hnumbers, hlegible⟩
      exact h.withCopy rfl rfl (hnumbers.modify _ _).append_nil (hlegible.overwrite agent)
  | delete ids =>
      refine numbered_inSession h fun copy answer copy' hsession hdone => ?_
      cases hdone
      rcases h.session copy hsession with ⟨hnumbers, hlegible⟩
      exact h.withCopy rfl rfl (hnumbers.delete ids).append_nil (hlegible.delete ids)
  | enqueue key payload =>
      exact numbered_whenOpen h (h.withOutbox rfl rfl (h.outbox.insert _))
  | enqueueAll events =>
      cases events with
      | nil => exact h.asBefore rfl rfl rfl
      | cons event events =>
          refine numbered_whenOpen h (h.withOutbox rfl rfl ?_)
          have hall := h.outbox.insertAll
            ((event :: events).map fun e => EventRow.ofKey e.1 e.2)
          -- The answer is the last id, from which the first one is counted back.
          simp only [Request.keptEventIds, Request.eventIds, Table.insertAll, List.length_map,
            Int.add_sub_cancel] at hall ⊢
          exact hall
  | enqueueIn key payload commits =>
      cases commits with
      | true => exact numbered_whenOpen h (h.withOutbox rfl rfl (h.outbox.insert _))
      | false => exact numbered_whenOpen h (h.asBefore rfl rfl rfl)
  | search assignment limit => exact numbered_whenOpen h (h.asBefore rfl rfl rfl)
  | deleteEvents ids =>
      dsimp only [handle]
      split
      · exact h.asBefore rfl rfl rfl
      · exact numbered_whenOpen h (h.withOutbox rfl rfl (h.outbox.delete ids).append_nil)
  | count => exact numbered_whenOpen h (h.asBefore rfl rfl rfl)
  | putAgent row => exact Bool.noConfusion hown
  | putEvent row => exact Bool.noConfusion hown

end Steps

theorem numbered_run {requests : List Request} (h : s.Numbered g)
    (hown : ∀ r ∈ requests, r.isRaw = false) :
    (s.run requests).Numbered (g.after s requests) := by
  induction requests generalizing s g with
  | nil => exact h
  | cons r requests ih =>
      exact ih (numbered_step h (hown r List.mem_cons_self))
        fun r hr => hown r (List.mem_cons_of_mem _ hr)

/-- An answer gives ids of agents only above all that count in its session. -/
theorem lt_agentIds (h : s.Numbered g) (r : Request) {id : Int}
    (hid : id ∈ r.agentIds (s.handle r).1) : ∀ old ∈ g.agents ++ g.pending, old < id := by
  cases r with
  | create agent =>
      simp only [handle, inSession] at hid
      cases hsession : s.session with
      | none =>
          rw [hsession] at hid
          exact absurd hid List.not_mem_nil
      | some copy =>
          rw [hsession] at hid
          rw [List.mem_singleton.mp hid]
          exact fun old hold => (h.session copy hsession).1.lt_nextId hold
  | _ => exact absurd hid List.not_mem_nil

/-- An answer gives ids of events only above all that were kept. -/
theorem lt_eventIds (h : s.Numbered g) (r : Request) {id : Int}
    (hid : id ∈ r.eventIds (s.handle r).1) : ∀ old ∈ g.events, old < id := by
  intro old hold
  cases r with
  | enqueue key payload | enqueueIn key payload =>
      simp only [handle, whenOpen] at hid
      split at hid
      · exact absurd hid List.not_mem_nil
      · rw [List.mem_singleton.mp hid]
        exact h.outbox.lt_nextId hold
  -- The ids of a block begin after the last one that was given.
  | enqueueAll events =>
      have hle := h.outbox.le_lastId old hold
      cases events with
      | nil => exact absurd hid List.not_mem_nil
      | cons event events =>
          simp only [handle, whenOpen, List.isEmpty_cons, Bool.false_eq_true, if_false] at hid
          split at hid
          · exact absurd hid List.not_mem_nil
          · simp only [Request.eventIds, Table.insertAll, List.length_map, List.mem_map] at hid
            rcases hid with ⟨i, _, rfl⟩
            omega
  | _ => exact absurd hid List.not_mem_nil

section Dropped

theorem agents_whenOpen {act : Except StoreError Answer × Store} (h : act.2.agents = s.agents) :
    (s.whenOpen act).2.agents = s.agents := by
  unfold whenOpen
  split
  · rfl
  · exact h

theorem agents_inSession (s : Store)
    (act : AgentTable → Except StoreError (Answer × AgentTable)) :
    (s.inSession act).2.agents = s.agents := by
  unfold inSession
  split
  · rfl
  · split <;> rfl

/-- Only a session that is committed changes the records. -/
theorem agents_handle {r : Request} (hown : r.isRaw = false) (hopen : r ≠ .commit) :
    (s.handle r).2.agents = s.agents := by
  cases r with
  | commit => exact absurd rfl hopen
  | rollback | close | reopen => rfl
  | list | create | update | delete => exact agents_inSession s _
  | begin | enqueue | enqueueIn | search | count => exact agents_whenOpen rfl
  | enqueueAll | deleteEvents =>
      simp only [handle]
      split
      · rfl
      · exact agents_whenOpen rfl
  | putAgent | putEvent => exact Bool.noConfusion hown

/-- What was not committed was not done, and the next id is what it was. -/
theorem agents_run_of_dropped {session : List Request}
    (hdropped : ∀ r ∈ session, r.isRaw = false ∧ r ≠ .commit) :
    (s.run session).agents = s.agents := by
  induction session generalizing s with
  | nil => rfl
  | cons r session ih =>
      rcases hdropped r List.mem_cons_self with ⟨hown, hopen⟩
      exact (ih fun r hr => hdropped r (List.mem_cons_of_mem _ hr)).trans
        (agents_handle hown hopen)

/-- So is an event that is rolled back. -/
theorem handle_enqueueIn_false (key : String) (payload : List UInt8) :
    (s.handle (.enqueueIn key payload false)).2 = s := by
  simp only [handle, whenOpen, Bool.false_eq_true, if_false]
  split <;> rfl

end Dropped

section Session

variable {copy : AgentTable}

theorem session_whenOpen {act : Except StoreError Answer × Store}
    (h : act.2.session = s.session) : (s.whenOpen act).2.session = s.session := by
  unfold whenOpen
  split
  · rfl
  · exact h

/-- A session goes on with what it has made of its copy. -/
theorem session_inSession (hsession : s.session = some copy)
    {act : AgentTable → Except StoreError (Answer × AgentTable)}
    (hact : ∀ answer copy', act copy = .ok (answer, copy') → copy.lastId ≤ copy'.lastId) :
    ∃ copy', (s.inSession act).2.session = some copy' ∧ copy.lastId ≤ copy'.lastId := by
  simp only [inSession, hsession]
  cases hdone : act copy with
  | error e => exact ⟨copy, hsession, Int.le_refl _⟩
  | ok outcome => exact ⟨outcome.2, rfl, hact outcome.1 outcome.2 hdone⟩

/-- A request that does not end the session leaves its counter, or moves it on. -/
theorem session_handle {r : Request} (hsession : s.session = some copy) (hown : r.isRaw = false)
    (hturns : r.turnsSession = false) :
    ∃ copy', (s.handle r).2.session = some copy' ∧ copy.lastId ≤ copy'.lastId := by
  have hsame : ∀ s' : Store, s'.session = s.session →
      ∃ copy', s'.session = some copy' ∧ copy.lastId ≤ copy'.lastId :=
    fun s' hs' => ⟨copy, hs'.trans hsession, Int.le_refl _⟩
  cases r with
  | begin | commit | rollback | close | reopen => exact Bool.noConfusion hturns
  | list role =>
      refine session_inSession hsession fun answer copy' hdone => ?_
      cases hlist : copy.list role with
      | error e =>
          rw [hlist] at hdone
          exact nomatch hdone
      | ok agents =>
          rw [hlist] at hdone
          cases hdone
          exact Int.le_refl _
  | create agent =>
      refine session_inSession hsession fun answer copy' hdone => ?_
      cases hdone
      simp only [Table.lastId_insert, Table.nextId]
      omega
  | update | delete =>
      refine session_inSession hsession fun answer copy' hdone => ?_
      cases hdone
      exact Int.le_refl _
  -- The outbox is no part of the session.
  | enqueue | enqueueIn | search | count => exact hsame _ (session_whenOpen rfl)
  | enqueueAll | deleteEvents =>
      simp only [handle]
      split
      · exact hsame _ rfl
      · exact hsame _ (session_whenOpen rfl)
  | putAgent | putEvent => exact Bool.noConfusion hown

/-- The counter of a session does not go back, whatever is asked of it. -/
theorem session_run {later : List Request} (hsession : s.session = some copy)
    (hlater : ∀ r ∈ later, r.isRaw = false ∧ r.turnsSession = false) :
    ∃ copy', (s.run later).session = some copy' ∧ copy.lastId ≤ copy'.lastId := by
  induction later generalizing s copy with
  | nil => exact ⟨copy, hsession, Int.le_refl _⟩
  | cons r later ih =>
      rcases hlater r List.mem_cons_self with ⟨hown, hturns⟩
      rcases session_handle hsession hown hturns with ⟨copy₁, hsession₁, hle₁⟩
      rcases ih hsession₁ fun r hr => hlater r (List.mem_cons_of_mem _ hr)
        with ⟨copy₂, hsession₂, hle₂⟩
      exact ⟨copy₂, hsession₂, hle₁.trans hle₂⟩

theorem handle_list (hsession : s.session = some copy) {role : String} {agents : List Agent}
    (hlist : copy.list role = .ok agents) :
    s.handle (.list role) = (.ok (.agents agents), s) := by
  simp only [handle, inSession, hsession, hlist, Except.map]
  rw [← hsession]

theorem handle_create (hsession : s.session = some copy) (agent : Agent) :
    s.handle (.create agent) =
      (.ok (.agent { agent with id := copy.nextId }),
        { s with session := some (copy.insert agent.row) }) := by
  simp only [handle, inSession, hsession]

end Session

/-- Whatever was asked of a store that was empty, in each of its tables the rows have ids of
    their own, which were given and not taken back, and whoever gets an id next gets one above
    all of these, also where the row with the largest one is gone. A session that is not
    committed leaves the records and the next id as they were, and so does an event that is
    rolled back. The list of a role has exactly its records, in ascending order of the ids; a
    record that is created comes after those, and after every list that the session has
    shown before. -/
theorem ids_order_registrations (requests : List Request)
    (hown : ∀ r ∈ requests, r.isRaw = false) :
    let s := ({} : Store).run requests
    let g := ({} : Granted).after {} requests
    (s.agents.ids.Nodup ∧ s.outbox.ids.Nodup ∧
      ∀ copy, s.session = some copy → copy.ids.Nodup) ∧
    ((∀ id ∈ s.agents.ids, id ∈ g.agents) ∧ (∀ id ∈ s.outbox.ids, id ∈ g.events) ∧
      ∀ copy, s.session = some copy → ∀ id ∈ copy.ids, id ∈ g.agents ++ g.pending) ∧
    (∀ r : Request,
      (∀ id ∈ r.agentIds (s.handle r).1, ∀ old ∈ g.agents ++ g.pending, old < id) ∧
      ∀ id ∈ r.eventIds (s.handle r).1, ∀ old ∈ g.events, old < id) ∧
    (∀ session, (∀ r ∈ session, r.isRaw = false ∧ r ≠ .commit) →
      ∀ last ∈ [.rollback, .close, .reopen],
        (s.run (.begin :: session ++ [last])).agents = s.agents ∧
        (s.run (.begin :: session ++ [last])).session = none) ∧
    (∀ key payload, (s.handle (.enqueueIn key payload false)).2 = s) ∧
    ∀ copy, s.session = some copy → ∀ role, ∃ listed,
      s.handle (.list role) = (.ok (.agents listed), s) ∧
      (listed.map fun a => (a.id, a.row)) = copy.rows.filter (·.2.role == role) ∧
      listed.Pairwise (·.id < ·.id) ∧
      (∀ agent, agent.role = role → ∃ new s',
        s.handle (.create agent) = (.ok (.agent new), s') ∧
        (s'.handle (.list role)).1 = .ok (.agents (listed ++ [new]))) ∧
      ∀ later, (∀ r ∈ later, r.isRaw = false ∧ r.turnsSession = false) → ∀ agent, ∃ new,
        ((s.run later).handle (.create agent)).1 = .ok (.agent new) ∧
        ∀ a ∈ listed, a.id < new.id := by
  intro s g
  have h : s.Numbered g := numbered_run numbered_empty hown
  refine ⟨⟨h.agents.nodup, h.outbox.nodup, fun copy hcopy => (h.session copy hcopy).1.nodup⟩,
    ⟨h.agents.of_row, h.outbox.of_row, fun copy hcopy => (h.session copy hcopy).1.of_row⟩,
    fun r => ⟨fun id => lt_agentIds h r, fun id => lt_eventIds h r⟩, ?_,
    fun key payload => handle_enqueueIn_false key payload, ?_⟩
  · intro session hdropped last hlast
    simp only [List.mem_cons, List.not_mem_nil, or_false] at hlast
    refine ⟨agents_run_of_dropped fun r hr => ?_, ?_⟩
    · rcases List.mem_append.mp hr with hr | hr
      · rcases List.mem_cons.mp hr with rfl | hr
        · exact ⟨rfl, nofun⟩
        · exact hdropped r hr
      · rw [List.mem_singleton.mp hr]
        rcases hlast with rfl | rfl | rfl <;> exact ⟨rfl, nofun⟩
    · simp only [run, List.foldl_append, List.foldl_cons, List.foldl_nil]
      rcases hlast with rfl | rfl | rfl <;> rfl
  · intro copy hcopy role
    rcases h.session copy hcopy with ⟨hnumbers, hlegible⟩
    rcases hlegible.exists_list role with ⟨listed, hlist, hrows⟩
    refine ⟨listed, handle_list hcopy hlist, hrows,
      AgentTable.ascending_list hnumbers.ordered hlist, fun agent hrole => ?_, ?_⟩
    · exact ⟨_, _, handle_create hcopy agent,
        congrArg Prod.fst (handle_list rfl (AgentTable.list_insert hlist hrole))⟩
    · intro later hlater agent
      rcases session_run hcopy hlater with ⟨copy', hcopy', hle⟩
      refine ⟨_, congrArg Prod.fst (handle_create hcopy' agent), fun a ha => ?_⟩
      -- What was listed is not above the counter as it was, and that has not gone back.
      have hbelow := hnumbers.ordered.le_lastId _ ((AgentTable.mem_list_iff hlist).mp ha).1
      simp only [Table.nextId] at hbelow ⊢
      omega

/-- Two agents registered and the second one left, a third one was dropped with its session,
    and the store was opened again. The next agent gets an id above those of the first two. -/
theorem ids_order_registrations_reopened :
    let agent : Agent := ⟨0, "processor", "node", 3000, .starting, none, none, none⟩
    let requests := [.begin, .create agent, .create agent, .commit, .begin, .delete [2], .commit,
      .begin, .create agent, .rollback, .close, .reopen, .begin]
    let s := ({} : Store).run requests
    let g := ({} : Granted).after {} requests
    (∀ r ∈ requests, r.isRaw = false) ∧ s.agents.ids = [1] ∧ g = { agents := [1, 2] } ∧
    (Request.create agent).agentIds (s.handle (.create agent)).1 = [3] ∧
    ∀ old ∈ g.agents ++ g.pending, old < 3 := by
  intro agent requests s g
  have hgiven : (Request.create agent).agentIds (s.handle (.create agent)).1 = [3] := by decide
  refine ⟨by decide, by decide, by decide, hgiven, ?_⟩
  refine ((ids_order_registrations requests (by decide)).2.2.1 (.create agent)).1 3 ?_
  rw [hgiven]
  exact List.mem_singleton_self 3

end Store

end OutboxCluster
