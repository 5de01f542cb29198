import OutboxCluster.Proofs.Ledger
import OutboxCluster.Proofs.Shard
import OutboxCluster.Proofs.Upkeep

/-!
# No Event on Two Accounts

Every event that was ever added is in the outbox or was accepted, and no event was
accepted twice. A worker that waits for a deletion is the only place where an event is on
both sides.

An event is accepted a second time only if a second worker claims a batch with it. While
the first one has its batch in hand nobody else can, since its record runs, whoever claims
a batch has a record that runs or is entitled to run, and shards of such records have no
hash in common. Once the first one is done, the events are gone from the outbox, and
nobody finds them any more. So all that is left is a worker that has found them before,
and has no claim on its batch while the first one works. If it is given that claim back,
the events are accepted again. `Steadfast` says that this does not happen.

## Main definitions

* `Batch.Stored`: The events of a batch are in the outbox.
* `Cluster.Gentle`: An event that leaves the tables alone, and ends only those who wait
  for time.
* `Cluster.Steadfast`: Nobody is given back its claim on a batch.
* `Cluster.Balanced`: The invariant.

## Theorems

* `Upkept.apart`: What one worker has in hand no other one claims.
* `balanced_step`: Every event keeps the invariant.
-/

namespace OutboxCluster

/-- The events of the batch are in the outbox as they were found, each of them once. -/
structure Batch.Stored (b : Batch) (t : Outbox) : Prop where
  nodup : b.ids.Nodup
  rows : ∀ e ∈ b.events, (e.id, ⟨e.key, e.hash.toNat, e.payload⟩) ∈ t.rows

namespace Batch.Stored

variable {b b' : Batch} {t t' : Outbox}

/-- How often a batch has failed does not matter. -/
theorem of_events (h : b.Stored t) (heq : b'.events = b.events) : b'.Stored t := by
  refine ⟨?_, ?_⟩
  · rw [ids, heq]
    exact h.nodup
  · rw [heq]
    exact h.rows

theorem mono (h : b.Stored t) (hsub : t.rows ⊆ t'.rows) : b.Stored t' :=
  ⟨h.nodup, fun e he => hsub (h.rows e he)⟩

theorem of_search (hord : t.Ordered) {assignment : Option Assignment} {limit : Nat}
    (h : t.search assignment limit = .ok b.events) : b.Stored t :=
  ⟨Outbox.nodup_search hord h, fun _ he => (Outbox.exists_of_search h he).1⟩

theorem mem_ids (h : b.Stored t) {id : Int} (hid : id ∈ b.ids) : id ∈ t.ids := by
  rcases List.mem_map.mp hid with ⟨e, he, rfl⟩
  exact Table.mem_ids_of_mem (h.rows e he)

/-- Other events are deleted. -/
theorem delete (h : b.Stored t) {gone : List Int} (hdisjoint : ∀ id ∈ gone, id ∉ b.ids) :
    b.Stored (t.delete gone) := by
  refine ⟨h.nodup, fun e he => Table.mem_delete.mpr ⟨h.rows e he, fun hgone => ?_⟩⟩
  exact hdisjoint e.id hgone (List.mem_map.mpr ⟨e, he, rfl⟩)

/-- Batches of shards that have no hash in common have no event in common. -/
theorem disjoint (hord : t.Ordered) (h : b.Stored t) (h' : b'.Stored t) (hrange : b.InRange)
    (hrange' : b'.InRange) {s s' : Assignment} (hs : b.assignment = some s)
    (hs' : b'.assignment = some s') (htotal : s.total = s'.total) (hindex : s.index ≠ s'.index) :
    ∀ id ∈ b.ids, id ∉ b'.ids := by
  intro id hid hid'
  rcases List.mem_map.mp hid with ⟨e, he, rfl⟩
  rcases List.mem_map.mp hid' with ⟨e', he', hsame⟩
  -- One id names one row, so both events have the hash of that row.
  have hrow := hord.eq_of_id_eq (h.rows e he) (h'.rows e' he') hsame.symm
  simp only [Prod.mk.injEq, EventRow.mk.injEq] at hrow
  have hhash : e.hash = e'.hash := UInt32.toNat_inj.mp (Int.ofNat_inj.mp hrow.2.2.1)
  have hin := hrange s hs e he
  have hin' := hrange' s' hs' e' he'
  rw [← hhash] at hin'
  refine Assignment.not_contains_both htotal (fun heq => hindex (congrArg _ heq)) e.hash ⟨?_, ?_⟩
  · exact (s.contains_iff e.hash).mpr ((s.mem_hashRange_iff e.hash).mp hin)
  · exact (s'.contains_iff e.hash).mpr ((s'.mem_hashRange_iff e.hash).mp hin')

end Batch.Stored

namespace Worker

variable {w : Worker} {b : Batch} {node : String} {j : Journal} {now bound : Nat}

theorem inHand_of_deleting (h : w.deleting? = some b) : w.inHand? = some b := by
  unfold deleting? at h
  unfold inHand?
  cases hwait : w.wait with
  | deleting due h' =>
      rw [hwait] at h
      exact h
  | _ =>
      rw [hwait] at h
      exact nomatch h

theorem not_over_of_hand (h : w.inHand? = some b) : w.isOver = false := by
  unfold inHand? at h
  unfold isOver
  cases hwait : w.wait with
  | «over» how =>
      rw [hwait] at h
      exact nomatch h
  | _ => rfl

/-- A batch in hand is one for the agent and the shard that are known. -/
theorem Sound.hand (h : w.Sound node j now bound) (hhand : w.inHand? = some b) :
    w.link.snapshot.Bears b ∧ b.InRange := by
  have hwaits := h.waits
  unfold Waits at hwaits
  unfold inHand? at hhand
  cases hwait : w.wait with
  | applying h' =>
      rw [hwait] at hwaits hhand
      rw [← Option.some.inj hhand]
      exact ⟨hwaits.1.bears, hwaits.1.polled.in_range⟩
  | renewing due started wall h' =>
      rw [hwait] at hwaits hhand
      rw [← Option.some.inj hhand]
      exact ⟨hwaits.1.bears, hwaits.1.polled.in_range⟩
  | deleting due h' =>
      rw [hwait] at hwaits hhand
      rw [← Option.some.inj hhand]
      exact ⟨hwaits.bears, hwaits.polled.in_range⟩
  | _ =>
      rw [hwait] at hhand
      exact nomatch hhand

/-- So is one that is claimed. -/
theorem Sound.claims (h : w.Sound node j now bound) (hclaims : w.Claims b) :
    w.link.snapshot.Bears b ∧ b.InRange := by
  rcases hclaims with hhand | ⟨_, hretained, hbears, _⟩
  · exact h.hand hhand
  · exact ⟨hbears, (h.kept b hretained).in_range⟩

variable {static : Bool} {t : AgentTable} {wall : Int}

/-- Who has a batch in hand runs. -/
theorem Attended.runs (h : w.Attended static t wall now) (hsound : w.Sound node j now bound)
    (hhand : w.inHand? = some b) : w.link.snapshot.state = .running := by
  have hwaits := hsound.waits
  have htimely := h.timely
  unfold Waits at hwaits
  unfold Timely at htimely
  unfold inHand? at hhand
  cases hwait : w.wait with
  | applying h' =>
      rw [hwait] at hwaits
      exact hwaits.2.1
  | renewing due started wall h' =>
      rw [hwait] at hwaits
      exact hwaits.2.1
  | deleting due h' =>
      rw [hwait] at htimely
      exact htimely.2
  | _ =>
      rw [hwait] at hhand
      exact nomatch hhand

/-- Who waits for time has counted everything that was accepted from it, and deleted it. -/
theorem Attended.nothing_due (h : w.Attended static t wall now) {signal : Signal}
    (hquiet : ∀ due, w.dueAt signal = some due → now < due) :
    w.deleting? = none ∧ w.uncounted = 0 := by
  unfold deleting? uncounted
  rcases h.quiet_cases hquiet with heq | ⟨_, heq⟩ | ⟨_, ⟨_, heq⟩ | ⟨_, heq⟩⟩ <;> rw [heq] <;>
    exact ⟨rfl, rfl⟩

/-- Whoever runs has a record that says so. -/
theorem Attended.registered (h : w.Attended static t wall now) (hnot : w.isOver = false)
    (hrun : w.link.snapshot.state = .running) :
    ∃ a, w.Registered static a t wall now ∧ t.Runs eventProcessorRole a := by
  rcases Fit.registered (h.fit hnot) hrun with ⟨a, hreg⟩
  exact ⟨a, hreg, hreg.holds, hreg.role.trans h.checked.role, hreg.state.symm.trans hrun⟩

/-- Whoever claims a batch has a record that runs, or that is entitled to its shard. -/
theorem Attended.claimant (h : w.Attended static t wall now) (hsound : w.Sound node j now bound)
    (hkind : w.link.configured.isSome = static) (hclaims : w.Claims b) :
    ∃ a, w.Registered static a t wall now ∧
      (t.Runs eventProcessorRole a ∨
        w.link.configured ≠ none ∧ t.Entitled eventProcessorRole a) := by
  rcases hclaims with hhand | ⟨hnot, hretained, hbears, hrun⟩
  · rcases h.registered (not_over_of_hand hhand) (h.runs hsound hhand) with ⟨a, hreg, hruns⟩
    exact ⟨a, hreg, Or.inl hruns⟩
  · by_cases hconf : w.link.configured = none
    · rcases h.registered hnot (hrun hconf) with ⟨a, hreg, hruns⟩
      exact ⟨a, hreg, Or.inl hruns⟩
    · rcases h.fit hnot with hnew | ⟨a, hreg⟩
      · exact nomatch hnew.retained.symm.trans hretained
      · have hstatic : static = true := by
          rw [← hkind]
          exact Option.isSome_iff_ne_none.mpr hconf
        have hent := hreg.entitled hstatic hconf b hretained hbears
        rw [hreg.role.trans h.checked.role] at hent
        exact ⟨a, hreg, Or.inr ⟨hconf, hent⟩⟩

end Worker

namespace Shifted

variable {Ends : String → Prop} {p p' : String × Worker} {b : Batch}

/-- Being started or brought to an end gives nobody a claim. -/
theorem claims (h : Shifted Ends p p') (hclaims : p'.2.Claims b) : p.2.Claims b := by
  cases h with
  | same => exact hclaims
  | @started node w hheld =>
      rcases hclaims with hhand | ⟨_, hretained, hbears, hrun⟩
      · exact nomatch hhand
      · refine Or.inr ⟨?_, hretained, hbears, hrun⟩
        show w.isOver = false
        unfold Worker.isOver
        rw [hheld]
  | ended _ => exact absurd hclaims (Worker.not_claims_of_over rfl b)

theorem of_deleting (h : Shifted Ends p p') (hdeleting : p'.2.deleting? = some b) :
    p.2.deleting? = some b := by
  cases h with
  | same => exact hdeleting
  | started _ => exact nomatch hdeleting
  | ended _ => exact nomatch hdeleting

/-- Who waits for a deletion goes on waiting, unless it is brought to its end. -/
theorem deleting (h : Shifted Ends p p') (hdeleting : p.2.deleting? = some b) :
    p'.2.deleting? = some b ∨ Ends p.1 := by
  cases h with
  | same => exact Or.inl hdeleting
  | @started node w hheld =>
      unfold Worker.deleting? at hdeleting
      rw [hheld] at hdeleting
      exact nomatch hdeleting
  | ended hends => exact Or.inr hends

/-- What a worker has counted stays, if none is brought to its end before it has counted. -/
theorem counts (h : Shifted Ends p p') (hspared : Ends p.1 → p.2.uncounted = 0) :
    p'.2.stats.eventsConsumed + p'.2.uncounted = p.2.stats.eventsConsumed + p.2.uncounted := by
  cases h with
  | same => rfl
  | @started node w hheld =>
      have hnone : w.uncounted = 0 := by
        unfold Worker.uncounted
        rw [hheld]
      show w.stats.eventsConsumed + 0 = w.stats.eventsConsumed + w.uncounted
      rw [hnone]
  | @ended node w hends =>
      show w.stats.eventsConsumed + 0 = w.stats.eventsConsumed + w.uncounted
      rw [hspared hends]

end Shifted

namespace Cluster

variable {static : Bool} {bound : Nat} {c c' : Cluster} {node : Node} {worker : Worker}
  {skip : Nat} {others : List (String × Worker)} {e : Event}

theorem Custody.crew (h : c.Custody bound) {p : String × Worker} (hp : p ∈ c.crew) :
    p.2.Sound p.1 c.journal c.now bound := by
  rcases mem_crew.mp hp with ⟨node, hnode, hname, hworker⟩
  rw [← hname]
  exact h.sound node hnode p.2 hworker

/-- What one worker has in hand no other one claims. -/
theorem Upkept.apart (h : c.Upkept static) (hcalm : c.Calm static) (hcustody : c.Custody bound)
    (hord : c.outbox.Ordered) {p q : String × Worker} (hp : p ∈ c.crew) (hq : q ∈ c.crew)
    (hother : ∀ id, p.2.link.selfId = some id → q.2.link.selfId ≠ some id) {b b' : Batch}
    (hhand : p.2.inHand? = some b) (hclaims : q.2.Claims b') (hstored : b.Stored c.outbox)
    (hstored' : b'.Stored c.outbox) : ∀ id ∈ b.ids, id ∉ b'.ids := by
  have hsound := hcustody.crew hp
  have hsound' := hcustody.crew hq
  have hattended := h.workers p hp
  rcases hattended.registered (Worker.not_over_of_hand hhand) (hattended.runs hsound hhand)
    with ⟨a, hreg, hruns⟩
  rcases (h.workers q hq).claimant hsound' (hcalm.links q hq) hclaims with ⟨a', hreg', hstands⟩
  have hne : a.id ≠ a'.id := fun hid => hother a.id hreg.self (hid ▸ hreg'.self)
  have hrole' := hreg'.role.trans (h.workers q hq).checked.role
  -- The records of the two workers have shards with no hash in common.
  have hapart : a'.Apart a := by
    cases hstatic : static with
    | false =>
        -- Among dynamic agents whoever claims a batch runs.
        have hdynamic := hcalm.links q hq
        rw [hstatic, Option.isSome_eq_false_iff, Option.isNone_iff_eq_none] at hdynamic
        have hruns' := hstands.resolve_right fun hconf => hconf.1 hdynamic
        exact (h.parted hstatic).apart a' a hruns' hruns (Ne.symm hne)
    | true =>
        have hranked := h.ranked hstatic
        have hent := hstands.elim (hranked.entitled a') fun hconf => hconf.2
        exact hent.apart hranked hreg'.holds hrole' hruns hne
  rcases hapart with ⟨s', s, hs', hs, htotal, hindex⟩
  -- Each batch was found in the shard of its record.
  rcases hsound.hand hhand with ⟨hbears, hrange⟩
  rcases hsound'.claims hclaims with ⟨hbears', hrange'⟩
  have hshard : b.assignment = some s := by
    rw [← hbears.2, hreg.assignment]
    exact hs
  have hshard' : b'.assignment = some s' := by
    rw [← hbears'.2, hreg'.assignment]
    exact hs'
  exact hstored.disjoint hord hstored' hrange hrange' hshard hshard' htotal.symm (Ne.symm hindex)

/-- Every event is on one side, apart from those that a worker is about to delete. -/
structure Balanced (c : Cluster) : Prop where
  ordered : c.outbox.Ordered
  nonneg : 0 ≤ c.outbox.lastId
  stored : ∀ p ∈ c.crew, ∀ b, p.2.Claims b → b.Stored c.outbox
  once : c.journal.acceptedIds.Nodup
  issued : ∀ id, id ∈ c.journal.acceptedIds ∨ id ∈ c.outbox.ids ↔ 1 ≤ id ∧ id ≤ c.outbox.lastId
  pending : ∀ id ∈ c.journal.acceptedIds, id ∈ c.outbox.ids →
    ∃ p ∈ c.crew, ∃ b, p.2.deleting? = some b ∧ id ∈ b.ids
  accepted : ∀ p ∈ c.crew, ∀ b, p.2.deleting? = some b → ∀ id ∈ b.ids, id ∈ c.journal.acceptedIds

namespace Event

/-- The nodes that an event adds. -/
def Adds : Event → String → Prop
  | .addStrategy host .., node | .addSingle host .., node => node = host.name
  | _, _ => False

instance (node : String) : ∀ e : Event, Decidable (e.Adds node)
  | .addStrategy host .. | .addSingle host .. => inferInstanceAs (Decidable (node = host.name))
  | .start _ | .drain _ | .stop _ | .send .. | .dropSignal _ | .abort _ | .discard _ | .enqueue _
  | .deleteEvents _ | .putAgent _ | .deleteAgents _ | .moveWall .. | .arm .. | .slow .. | .turn ..
  | .tick => .isFalse id

instance (node : String) : ∀ e : Event, Decidable (e.Ends node)
  | .addStrategy host .. | .addSingle host .. => inferInstanceAs (Decidable (node = host.name))
  | .stop name | .abort name | .discard name => inferInstanceAs (Decidable (node = name))
  | .start _ | .drain _ | .send .. | .dropSignal _ | .enqueue _ | .deleteEvents _ | .putAgent _
  | .deleteAgents _ | .moveWall .. | .arm .. | .slow .. | .turn .. | .tick => .isFalse id

/-- The keys of the events that are added to the outbox. -/
def enqueued : Event → List String
  | .enqueue keys => keys
  | _ => []

end Event

/-- Who comes has done nothing yet. -/
structure Idle (w : Worker) : Prop where
  deleting : w.deleting? = none
  uncounted : w.uncounted = 0
  consumed : w.stats.eventsConsumed = 0
  claims : ∀ b, ¬ w.Claims b

theorem Event.Brings.idle {name : String} {w : Worker} (h : e.Brings c name w) : Idle w := by
  rcases h.fresh with ⟨hwait, settings, v, agent, configured, _, heq⟩
  have hstats : w.stats = {} := by rw [heq]; rfl
  have hretained : w.retained = none := by rw [heq]; rfl
  refine ⟨?_, ?_, ?_, fun b hclaims => ?_⟩
  · unfold Worker.deleting?
    rcases hwait with hwait | hwait <;> rw [hwait]
  · unfold Worker.uncounted
    rcases hwait with hwait | hwait <;> rw [hwait]
  · rw [hstats]
  · have hhand := hclaims.of_alone hretained
    unfold Worker.inHand? at hhand
    rcases hwait with hwait | hwait <;> rw [hwait] at hhand <;> exact nomatch hhand

/-- Events are added to the outbox, and none are taken away. -/
structure Grows (t t' : Outbox) (n : Nat) : Prop where
  ordered : t.Ordered → t'.Ordered
  rows : t.rows ⊆ t'.rows
  lastId : t'.lastId = t.lastId + n
  ids : ∀ id, id ∈ t'.ids ↔ id ∈ t.ids ∨ t.lastId < id ∧ id ≤ t.lastId + n

theorem Event.KeepsTables.grows (h : e.KeepsTables) (t : Outbox) :
    Grows t (e.outbox t) e.enqueued.length := by
  have hnone : Grows t t 0 := by
    refine ⟨id, fun _ hp => hp, (Int.add_zero _).symm, fun id => ?_⟩
    have hnew : ¬ (t.lastId < id ∧ id ≤ t.lastId + (0 : Nat)) := by omega
    rw [or_iff_left hnew]
  cases e with
  | enqueue keys =>
      exact ⟨Outbox.ordered_enqueueAll keys, (Outbox.rows_enqueueAll keys t).subset,
        Outbox.lastId_enqueueAll keys t, fun _ => Outbox.mem_ids_enqueueAll keys t⟩
  | deleteEvents ids => exact h.elim
  | _ => exact hnone

/-- Rows of the tables are left alone, nodes have names of their own, and a worker is ended
    only while it waits for time. -/
structure Gentle (c : Cluster) (e : Event) : Prop where
  keeps : e.KeepsTables
  fresh : ∀ node ∈ c.nodes, ¬ e.Adds node.host.name
  patient : ∀ node ∈ c.nodes, e.Ends node.host.name → ∀ w ∈ node.body.workers,
    ∀ due ∈ w.dueAt node.body.signal, c.now < due

instance (c : Cluster) (e : Event) : Decidable (c.Gentle e) :=
  decidable_of_iff
    (e.KeepsTables ∧ (∀ node ∈ c.nodes, ¬ e.Adds node.host.name) ∧
      ∀ node ∈ c.nodes, e.Ends node.host.name → ∀ w ∈ node.body.workers,
        ∀ due ∈ w.dueAt node.body.signal, c.now < due)
    ⟨fun h => ⟨h.1, h.2.1, h.2.2⟩, fun h => ⟨h.keeps, h.fresh, h.patient⟩⟩

/-- A dynamic agent is not given back its claim on a batch that it has kept. -/
def Steadfast (c : Cluster) (e : Event) : Prop :=
  ∀ p ∈ c.crew, ∀ p' ∈ (c.perform e).2.crew, post p' = post p → p.2.link.configured = none →
    ∀ b ∈ p.2.retained, p'.2.Claims b → p.2.Claims b

instance (c : Cluster) (e : Event) : Decidable (c.Steadfast e) := by
  unfold Steadfast
  infer_instance

theorem balanced_init (epoch : Int) : ({ epoch } : Cluster).Balanced where
  ordered := Table.ordered_empty
  nonneg := Int.le_refl 0
  stored := fun _ hp => absurd hp List.not_mem_nil
  once := List.nodup_nil
  issued := by
    intro id
    have hnone : ¬ (1 ≤ id ∧ id ≤ (0 : Int)) := by omega
    exact ⟨fun h => h.elim (fun h => nomatch h) (fun h => nomatch h), fun h => absurd h hnone⟩
  pending := fun _ hid => absurd hid List.not_mem_nil
  accepted := fun _ hp => absurd hp List.not_mem_nil

section Steps

variable {p p' : String × Worker} {b : Batch} (h : c.Balanced)
  (hcrew : ∀ q, q ∈ c.crew ↔ q = p ∨ q ∈ others)
  (hcrew' : ∀ q, q ∈ c'.crew ↔ q = p' ∨ q ∈ others)

include h hcrew hcrew'

/-- One worker makes a step in which nothing is accepted or deleted. -/
theorem Balanced.rests (hdeleting : p.2.deleting? = none) (hdeleting' : p'.2.deleting? = none)
    (houtbox : c'.outbox = c.outbox)
    (haccepted : c'.journal.acceptedIds = c.journal.acceptedIds)
    (hstored : ∀ b, p'.2.Claims b → b.Stored c.outbox) : c'.Balanced := by
  refine ⟨?_, ?_, fun q hq b hclaims => ?_, ?_, fun id => ?_, fun id hid hin => ?_,
    fun q hq b hdel id hid => ?_⟩
  · rw [houtbox]
    exact h.ordered
  · rw [houtbox]
    exact h.nonneg
  · rw [houtbox]
    rcases (hcrew' q).mp hq with rfl | hother
    · exact hstored b hclaims
    · exact h.stored q ((hcrew q).mpr (Or.inr hother)) b hclaims
  · rw [haccepted]
    exact h.once
  · rw [haccepted, houtbox]
    exact h.issued id
  -- The worker is about to delete nothing, before or after, so another one has the event.
  · rw [haccepted] at hid
    rw [houtbox] at hin
    rcases h.pending id hid hin with ⟨q, hq, b, hdel, hmem⟩
    rcases (hcrew q).mp hq with rfl | hother
    · exact nomatch hdeleting.symm.trans hdel
    · exact ⟨q, (hcrew' q).mpr (Or.inr hother), b, hdel, hmem⟩
  · rw [haccepted]
    rcases (hcrew' q).mp hq with rfl | hother
    · exact nomatch hdeleting'.symm.trans hdel
    · exact h.accepted q ((hcrew q).mpr (Or.inr hother)) b hdel id hid

/-- The batch that one worker has in hand is accepted. Nobody else claims any of its
    events, so none of them was accepted before. -/
theorem Balanced.accepts (hdeleting : p.2.deleting? = none) (hhand : p.2.inHand? = some b)
    (hdeleting' : p'.2.deleting? = some b) (houtbox : c'.outbox = c.outbox)
    (haccepted : c'.journal.acceptedIds = b.ids ++ c.journal.acceptedIds)
    (hclaims : ∀ b', p'.2.Claims b' → b' = b)
    (hapart : ∀ q ∈ others, ∀ b', q.2.Claims b' → ∀ id ∈ b.ids, id ∉ b'.ids) :
    c'.Balanced := by
  have hstored : b.Stored c.outbox := h.stored p ((hcrew p).mpr (Or.inl rfl)) b (Or.inl hhand)
  -- What was accepted before and is still there another worker has in hand.
  have hpending : ∀ id ∈ c.journal.acceptedIds, id ∈ c.outbox.ids →
      ∃ q ∈ others, ∃ b', q.2.deleting? = some b' ∧ id ∈ b'.ids := by
    intro id hid hin
    rcases h.pending id hid hin with ⟨q, hq, b', hdel, hmem⟩
    rcases (hcrew q).mp hq with rfl | hother
    · exact nomatch hdeleting.symm.trans hdel
    · exact ⟨q, hother, b', hdel, hmem⟩
  refine ⟨?_, ?_, fun q hq b' hclaims' => ?_, ?_, fun id => ?_, fun id hid hin => ?_,
    fun q hq b' hdel id hid => ?_⟩
  · rw [houtbox]
    exact h.ordered
  · rw [houtbox]
    exact h.nonneg
  · rw [houtbox]
    rcases (hcrew' q).mp hq with rfl | hother
    · rw [hclaims b' hclaims']
      exact hstored
    · exact h.stored q ((hcrew q).mpr (Or.inr hother)) b' hclaims'
  · -- An event that was accepted before and is accepted now would be claimed twice.
    rw [haccepted]
    refine List.nodup_append.mpr ⟨hstored.nodup, h.once, ?_⟩
    rintro id hid _ hdone rfl
    rcases hpending id hdone (hstored.mem_ids hid) with ⟨q, hother, b', hdel, hmem⟩
    have hclaims' : q.2.Claims b' := Or.inl (Worker.inHand_of_deleting hdel)
    exact hapart q hother b' hclaims' id hid hmem
  · rw [haccepted, houtbox, List.mem_append, or_assoc, h.issued id, or_iff_right_iff_imp]
    exact fun hid => (h.issued id).mp (Or.inr (hstored.mem_ids hid))
  · rw [haccepted, List.mem_append] at hid
    rw [houtbox] at hin
    rcases hid with hnew | hid
    · exact ⟨p', (hcrew' p').mpr (Or.inl rfl), b, hdeleting', hnew⟩
    · rcases hpending id hid hin with ⟨q, hother, b', hdel, hmem⟩
      exact ⟨q, (hcrew' q).mpr (Or.inr hother), b', hdel, hmem⟩
  · rw [haccepted, List.mem_append]
    rcases (hcrew' q).mp hq with rfl | hother
    · rw [Option.some.inj (hdel.symm.trans hdeleting')] at hid
      exact Or.inl hid
    · exact Or.inr (h.accepted q ((hcrew q).mpr (Or.inr hother)) b' hdel id hid)

/-- The events of the batch that was accepted are deleted. Nobody else claims any of them,
    so all other batches are still there. -/
theorem Balanced.deletes (hdeleting : p.2.deleting? = some b) (hdeleting' : p'.2.deleting? = none)
    (houtbox : c'.outbox = c.outbox.delete b.ids)
    (haccepted : c'.journal.acceptedIds = c.journal.acceptedIds)
    (hclaims : ∀ b', ¬ p'.2.Claims b')
    (hapart : ∀ q ∈ others, ∀ b', q.2.Claims b' → ∀ id ∈ b.ids, id ∉ b'.ids) :
    c'.Balanced := by
  have hgone : ∀ id ∈ b.ids, id ∈ c.journal.acceptedIds :=
    h.accepted p ((hcrew p).mpr (Or.inl rfl)) b hdeleting
  refine ⟨?_, ?_, fun q hq b' hclaims' => ?_, ?_, fun id => ?_, fun id hid hin => ?_,
    fun q hq b' hdel id hid => ?_⟩
  · rw [houtbox]
    exact h.ordered.delete _
  · rw [houtbox]
    exact h.nonneg
  · rw [houtbox]
    rcases (hcrew' q).mp hq with rfl | hother
    · exact absurd hclaims' (hclaims b')
    · have hstored := h.stored q ((hcrew q).mpr (Or.inr hother)) b' hclaims'
      exact hstored.delete (hapart q hother b' hclaims')
  · rw [haccepted]
    exact h.once
  · -- What is gone from the outbox was accepted.
    rw [haccepted, houtbox, Table.mem_ids_delete, Table.lastId_delete, ← h.issued id]
    constructor
    · rintro (hid | ⟨hin, _⟩)
      · exact Or.inl hid
      · exact Or.inr hin
    · rintro (hid | hin)
      · exact Or.inl hid
      · by_cases hmem : id ∈ b.ids
        · exact Or.inl (hgone id hmem)
        · exact Or.inr ⟨hin, hmem⟩
  · rw [haccepted] at hid
    rw [houtbox, Table.mem_ids_delete] at hin
    rcases h.pending id hid hin.1 with ⟨q, hq, b', hdel, hmem⟩
    rcases (hcrew q).mp hq with rfl | hother
    · rw [Option.some.inj (hdel.symm.trans hdeleting)] at hmem
      exact absurd hmem hin.2
    · exact ⟨q, (hcrew' q).mpr (Or.inr hother), b', hdel, hmem⟩
  · rw [haccepted]
    rcases (hcrew' q).mp hq with rfl | hother
    · exact nomatch hdeleting'.symm.trans hdel
    · exact h.accepted q ((hcrew q).mpr (Or.inr hother)) b' hdel id hid

end Steps

section Turns

/-- What the turn of a worker does to the ledger. -/
theorem Turned.drains (hturned : Turned bound c c' node worker skip others) (h : c.Upkept static)
    (hcalm : c.Calm static) (hcustody : c.Custody bound) :
    (c.scene node worker skip).Drains (c.scene node worker skip).resume := by
  have hnode := hturned.node_mem
  have hworker := hturned.worker_mem
  exact Scene.resume_drains (h.served hcalm.prompt (h.graded hcalm) hnode hworker)
    (hcustody.sound node hnode worker hworker) (h.attended hcalm.prompt hnode hworker)

/-- A turn keeps the balance. Of the worker of the turn its scene tells what it claims, and
    of the others that they claim nothing that it has in hand. -/
theorem Balanced.turned (h : c.Balanced) (hupkept : c.Upkept static) (hcalm : c.Calm static)
    (hcustody : c.Custody bound) (hturned : Turned bound c c' node worker skip others)
    (hsteadfast : worker.link.configured = none → ∀ b, worker.retained = some b →
      (c.scene node worker skip).resume.worker.Claims b → worker.Claims b) : c'.Balanced := by
  have hdrains := hturned.drains hupkept hcalm hcustody
  have hown : (node.host.name, worker) ∈ c.crew :=
    mem_crew_of_mem hturned.node_mem hturned.worker_mem
  have hcrew := hturned.crew_before
  have hapart : ∀ b, worker.inHand? = some b → ∀ q ∈ others, ∀ b', q.2.Claims b' →
      ∀ id ∈ b.ids, id ∉ b'.ids := by
    intro b hhand q hq b' hclaims
    have hq' : q ∈ c.crew := hcrew.mem_iff.mpr (List.mem_cons_of_mem _ hq)
    have hstored : b.Stored c.outbox := h.stored _ hown b (Or.inl hhand)
    exact hupkept.apart hcalm hcustody h.ordered hown hq'
      (fun id hself hsame => hupkept.other hcrew hq hsame hself) hhand hclaims hstored
      (h.stored q hq' b' hclaims)
  -- Whatever the worker claims afterwards is in the outbox now, where it comes from.
  have hstored : ∀ b, (c.scene node worker skip).Source b →
      (worker.link.configured = none → worker.retained = some b → worker.Claims b) →
      b.Stored c.outbox := by
    rintro b (⟨b₀, hclaims, heq⟩ | ⟨limit, hsearch⟩ | ⟨hconf, hkept⟩) hgiven
    · exact (h.stored _ hown b₀ hclaims).of_events heq
    · exact Batch.Stored.of_search h.ordered hsearch
    · exact h.stored _ hown b (hgiven hconf hkept)
  have hbefore := fun q => hcrew.mem_iff.trans (List.mem_cons (a := q))
  have hafter := fun q => hturned.crew_after.mem_iff.trans (List.mem_cons (a := q))
  have houtbox := hturned.outbox_eq
  have hids := congrArg Journal.acceptedIds hturned.journal_eq
  cases hdrains with
  | rests hdeleting hdeleting' hsame haccepted _ hsource =>
      refine h.rests hbefore hafter hdeleting hdeleting' (houtbox.trans hsame) ?_
        fun b hclaims => ?_
      · rw [hids, Journal.acceptedIds, haccepted]
        rfl
      · exact hstored b (hsource b hclaims) fun hconf hkept => hsteadfast hconf b hkept hclaims
  | accepts hdeleting hhand hdeleting' hsame haccepted _ hclaims =>
      refine h.accepts hbefore hafter hdeleting hhand hdeleting' (houtbox.trans hsame) ?_ hclaims
        (hapart _ hhand)
      rw [hids, Journal.acceptedIds, haccepted]
      rfl
  | deletes hdeleting hdeleting' hgone haccepted _ hclaims =>
      refine h.deletes hbefore hafter hdeleting hdeleting' (houtbox.trans hgone) ?_ hclaims
        (hapart _ (Worker.inHand_of_deleting hdeleting))
      rw [hids, Journal.acceptedIds, haccepted]
      rfl

end Turns

section Outside

variable {p p' : String × Worker} {b : Batch}

/-- Who is brought to an end waits for time, so it has nothing accepted in hand. -/
theorem Gentle.spares (h : c.Gentle e) (hupkept : c.Upkept static) (hp : p ∈ c.crew)
    (hends : e.Ends p.1) : p.2.deleting? = none ∧ p.2.uncounted = 0 := by
  rcases mem_crew.mp hp with ⟨node, hnode, hname, hworker⟩
  rw [← hname] at hends
  exact (hupkept.workers p hp).nothing_due (h.patient node hnode hends p.2 hworker)

/-- Between turns nobody comes to claim a batch, and who waits for a deletion goes on
    waiting. -/
theorem Outside.balanced (hout : Outside e c c') (h : c.Balanced) (hupkept : c.Upkept static)
    (hgentle : c.Gentle e) : c'.Balanced := by
  have hgrows := hgentle.keeps.grows c.outbox
  rw [← hout.outbox_eq] at hgrows
  have haccepted : c'.journal.acceptedIds = c.journal.acceptedIds := by
    rcases hout.journal with ⟨ns, heq⟩
    rw [heq, Journal.acceptedIds, Journal.accepted_addNotices]
    rfl
  refine ⟨hgrows.ordered h.ordered, ?_, fun q hq b hclaims => ?_, ?_, fun id => ?_,
    fun id hid hin => ?_, fun q hq b hdel id hid => ?_⟩
  · have hnonneg := h.nonneg
    rw [hgrows.lastId]
    omega
  · rcases hout.crew.mem_cases hq with ⟨q₀, hq₀, hshifted⟩ | hbrings
    · exact (h.stored q₀ hq₀ b (hshifted.claims hclaims)).mono hgrows.rows
    · exact absurd hclaims (hbrings.idle.claims b)
  · rw [haccepted]
    exact h.once
  · have hnonneg := h.nonneg
    have hissued := h.issued id
    rw [haccepted, hgrows.ids, ← or_assoc, hissued, hgrows.lastId]
    omega
  · -- Ids that were accepted are older than all that are given now.
    rw [haccepted] at hid
    have hold : id ∈ c.outbox.ids := by
      have hle := ((h.issued id).mp (Or.inl hid)).2
      rcases (hgrows.ids id).mp hin with hold | hnew
      · exact hold
      · omega
    rcases h.pending id hid hold with ⟨q, hq, b, hdel, hmem⟩
    -- Who waits for a deletion is not started and does not come to an end.
    have hstays : ¬ e.Ends q.1 := by
      intro hends
      exact nomatch hdel.symm.trans (hgentle.spares hupkept hq hends).1
    rcases hout.crew.cases_of_mem hq with ⟨q', hq', hshifted⟩ | hends
    · rcases hshifted.deleting hdel with hsame | hends
      · exact ⟨q', hq', b, hsame, hmem⟩
      · exact absurd hends hstays
    · exact absurd hends hstays
  · rw [haccepted]
    rcases hout.crew.mem_cases hq with ⟨q₀, hq₀, hshifted⟩ | hbrings
    · exact h.accepted q₀ hq₀ b (hshifted.of_deleting hdel) id hid
    · exact nomatch hbrings.idle.deleting.symm.trans hdel

end Outside

/-- Every gentle event keeps the balance, as long as nothing fails and nobody is given back
    its claim on a batch. -/
theorem balanced_step (h : c.Balanced) (hupkept : c.Upkept static) (hdistinct : c.Distinct)
    (hcustody : c.Custody bound) (hopens : c.OpensWithin bound) (hcalm : c.Calm static)
    (hgentle : c.Gentle e) (hsteadfast : c.Steadfast e) : (c.perform e).2.Balanced := by
  rcases step_cases hdistinct hcustody hopens e with hout | ⟨node, worker, skip, others, hturned⟩
  · exact hout.balanced h hupkept hgentle
  · refine h.turned hupkept hcalm hcustody hturned fun hconf b hkept hclaims => ?_
    have hown : (node.host.name, worker) ∈ c.crew :=
      mem_crew_of_mem hturned.node_mem hturned.worker_mem
    have hown' := hturned.crew_after.mem_iff.mpr List.mem_cons_self
    have hname : (c.scene node worker skip).resume.worker.name = worker.name :=
      hturned.settles.follows.worker_eq
    exact hsteadfast _ hown _ hown' (congrArg (Prod.mk node.host.name) hname) hconf b hkept hclaims

end Cluster

end OutboxCluster
