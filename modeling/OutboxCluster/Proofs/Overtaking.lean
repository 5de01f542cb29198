import OutboxCluster.Proofs.Conduct
import OutboxCluster.Proofs.Deletion
import OutboxCluster.Proofs.Drain

/-!
# No Event Is Overtaken

A batch is kept for as long as it fails. Meanwhile events are added, others are deleted,
and shards pass from one worker to another. So when a sink is given the batch at last, the
outbox is no longer the one in which the batch was found, and a search would perhaps find
something else. Still the batch is what comes first in its shard: it has every event of the
shard that is there at that instant and does not come after the batch.

This is because an outbox only ever loses events, or gets ones that come after all others.
Neither makes an event that should have come before the batch. So the law of a search,
`Outbox.search_first`, is kept by whatever is done to the outbox (`Batch.Leads.mono`), and
it is enough to follow every batch back to the search that has found it. Events with one
key have one hash and stand in one shard, so no event is given to a sink as long as an
earlier one with its key is left out.

## Main definitions

* `Batch.Leads`: A batch comes first in its shard.
* `Cluster.Leading`: The invariant, of all batches that workers have.
* `Cluster.Begins`: A sink is given a batch.

## Theorems

* `Batch.leads_of_search`: What is found comes first.
* `Batch.Leads.mono`: It comes first whatever becomes of the outbox.
* `Batch.Leads.not_overtaken`: It leaves out no earlier event with the key of one of its own.
* `leading_step`: Every event keeps the invariant.
* `batches_come_first`: Whatever batch a sink is given comes first.
-/

namespace OutboxCluster

namespace Batch

/-- The batch is made up of so many events of its shard at most, in their order, and comes
    first in the shard: whatever is in the outbox for this shard, and is not above the last
    event of the batch, belongs to the batch. -/
structure Leads (b : Batch) (t : Outbox) (limit : Nat) : Prop where
  nonempty : b.events ≠ []
  length_le : b.events.length ≤ limit
  ascending : b.ids.Pairwise (· < ·)
  /-- The ids have been given, so that whatever is added comes after the batch. -/
  known : ∀ e ∈ b.events, e.id ≤ t.lastId
  eligible : ∀ e ∈ b.events, Outbox.eligible b.assignment e.hash.toNat = true
  hashed : ∀ e ∈ b.events, e.hash = routingHash e.key
  first : ∀ p ∈ t.rows, Outbox.eligible b.assignment p.2.hash = true →
    ∀ e ∈ b.events, p.1 ≤ e.id → p ∈ b.events.map OutboxEvent.stored

variable {b b' : Batch} {t t' : Outbox} {limit : Nat}

/-- Events that were just found come first. -/
theorem leads_of_search (hord : t.Ordered) (hhashed : t.Hashed) (hne : b.events ≠ [])
    (h : t.search b.assignment limit = .ok b.events) : b.Leads t limit where
  nonempty := hne
  length_le := Outbox.length_search_le h
  ascending := Outbox.ascending_search hord h
  known := fun _ he => hord.le_lastId _ (Outbox.exists_of_search h he).1
  eligible := fun _ he => (Outbox.exists_of_search h he).2
  hashed := by
    intro e he
    have hhash := hhashed _ (Outbox.exists_of_search h he).1
    exact UInt32.toNat_inj.mp (Int.ofNat_inj.mp hhash)
  first := by
    intro p hp heligible e he hle
    rcases Outbox.search_first hord h hp heligible he hle with ⟨e', he', heq⟩
    exact List.mem_map.mpr ⟨e', he', heq.symm⟩

namespace Leads

/-- Whatever is taken away or added, the batch still comes first. -/
theorem mono (h : b.Leads t limit) (hsucceeds : Outbox.Succeeds t t') : b.Leads t' limit :=
  { h with
    known := fun e he => Int.le_trans (h.known e he) hsucceeds.lastId_le
    first := by
      intro p hp heligible e he hle
      rcases hsucceeds.rows p hp with hbefore | ⟨hnew, _⟩
      · exact h.first p hbefore heligible e he hle
      · -- An event that was added comes after the batch.
        have hknown := h.known e he
        omega }

/-- Only the events and their shard matter. -/
theorem of_eq (h : b.Leads t limit) (hevents : b'.events = b.events)
    (hassignment : b'.assignment = b.assignment) : b'.Leads t limit := by
  rcases b with ⟨events, agentId, assignment, attempts⟩
  rcases b' with ⟨events', agentId', assignment', attempts'⟩
  obtain rfl : events' = events := hevents
  obtain rfl : assignment' = assignment := hassignment
  exact ⟨h.nonempty, h.length_le, h.ascending, h.known, h.eligible, h.hashed, h.first⟩

/-- No event that waits comes before an event of the batch with the same key, unless it
    belongs to the batch. -/
theorem not_overtaken (h : b.Leads t limit) (hhashed : t.Hashed) {e : OutboxEvent}
    (he : e ∈ b.events) {p : Int × EventRow} (hp : p ∈ t.rows) (hkey : p.2.key = e.key)
    (hlt : p.1 < e.id) : p ∈ b.events.map OutboxEvent.stored := by
  have hhash : p.2.hash = e.hash.toNat := by
    rw [hhashed p hp, hkey, h.hashed e he]
  refine h.first p hp ?_ e he (Int.le_of_lt hlt)
  rw [hhash]
  exact h.eligible e he

end Leads

end Batch

/-- Between turns nobody gets a batch. -/
theorem Shifted.carries {Ends : String → Prop} {p p' : String × Worker} (h : Shifted Ends p p')
    {b : Batch} (hb : p'.2.Carries b) :
    p.2.Carries b ∧ p'.2.settings = p.2.settings := by
  cases h with
  | same => exact ⟨hb, rfl⟩
  | started _ => exact ⟨Or.inl (hb.resolve_right fun h => nomatch h), rfl⟩
  | ended _ => exact ⟨Or.inl (hb.resolve_right fun h => nomatch h), rfl⟩

namespace Cluster

variable {bound : Nat} {c c' : Cluster} {node : Node} {worker : Worker} {skip : Nat}
  {others : List (String × Worker)} {e : Event} {events : List Event}

/-- Who comes has no batch. -/
theorem Event.Brings.not_carries {name : String} {w : Worker} (h : e.Brings c name w) (b : Batch) :
    ¬ w.Carries b := by
  rcases h.fresh with ⟨hwait, _, _, _, _, _, heq⟩
  rintro (hkept | hhand)
  · rw [heq] at hkept
    cases hkept
  · rcases hwait with hwait | hwait
    · rw [Worker.carried?, hwait] at hhand
      cases hhand
    · rw [Worker.carried?, hwait] at hhand
      cases hhand

theorem Event.succeeds (e : Event) (t : Outbox) : Outbox.Succeeds t (e.outbox t) := by
  cases e with
  | enqueue keys => exact Outbox.Succeeds.enqueueAll keys t
  | deleteEvents ids => exact Outbox.Succeeds.delete t ids
  | _ => exact Outbox.Succeeds.refl t

/-- Every batch that a worker has, in hand or kept, comes first. -/
structure Leading (c : Cluster) : Prop where
  ordered : c.outbox.Ordered
  hashed : c.outbox.Hashed
  leads : ∀ p ∈ c.crew, ∀ b, p.2.Carries b → b.Leads c.outbox p.2.settings.batchSize

theorem leading_init {agents : AgentTable} {outbox : Outbox} (epoch : Int)
    (hord : outbox.Ordered) (hhashed : outbox.Hashed) :
    ({ epoch, agents, outbox } : Cluster).Leading :=
  ⟨hord, hhashed, fun _ hp => absurd hp List.not_mem_nil⟩

theorem Leading.outside (h : c.Leading) (hout : Outside e c c') : c'.Leading := by
  have hsucceeds := e.succeeds c.outbox
  rw [← hout.outbox_eq] at hsucceeds
  refine ⟨hsucceeds.ordered h.ordered, hsucceeds.hashed h.hashed, fun p hp b hb => ?_⟩
  rcases hout.crew.mem_cases hp with ⟨q, hq, hshifted⟩ | hbrings
  · rcases hshifted.carries hb with ⟨hbefore, hsettings⟩
    rw [hsettings]
    exact (h.leads q hq b hbefore).mono hsucceeds
  · exact absurd hb (hbrings.not_carries b)

theorem Leading.turned (h : c.Leading) (hcustody : c.Custody bound)
    (hturned : Turned bound c c' node worker skip others) : c'.Leading := by
  have hmem := mem_crew_of_mem hturned.node_mem hturned.worker_mem
  have hconducts := hturned.conducts hcustody
  have hsucceeds : Outbox.Succeeds c.outbox c'.outbox := by
    rw [hturned.outbox_eq]
    rcases hconducts.outbox with heq | ⟨ids, heq⟩
    · rw [heq]
      exact Outbox.Succeeds.refl _
    · rw [heq]
      exact Outbox.Succeeds.delete _ ids
  refine ⟨hsucceeds.ordered h.ordered, hsucceeds.hashed h.hashed, fun p hp b hb => ?_⟩
  rcases List.mem_cons.mp (hturned.crew_after.mem_iff.mp hp) with rfl | hother
  · rw [hconducts.settings_eq]
    rcases hconducts.supplies b hb with ⟨b₀, hb₀, hevents, hassignment⟩ | ⟨hne, hsearch⟩
    · exact ((h.leads _ hmem b₀ hb₀).of_eq hevents hassignment).mono hsucceeds
    · exact (Batch.leads_of_search h.ordered h.hashed hne hsearch).mono hsucceeds
  · have hbefore := hturned.crew_before.mem_iff.mpr (List.mem_cons_of_mem _ hother)
    exact (h.leads p hbefore b hb).mono hsucceeds

/-- Every event keeps the invariant, whatever fails. -/
theorem leading_step (h : c.Leading) (hdistinct : c.Distinct) (hcustody : c.Custody bound)
    (hopens : c.OpensWithin bound) (e : Event) : (c.perform e).2.Leading := by
  rcases step_cases hdistinct hcustody hopens e with hout | ⟨node, worker, skip, others, hturned⟩
  · exact h.outside hout
  · exact h.turned hcustody hturned

/-- By the event a sink is given the batch. -/
def Begins (c : Cluster) (e : Event) (who : Stamp) (b : Batch) : Prop :=
  ∃ es snapshot, (c.perform e).2.journal = es ++ c.journal ∧ .began who snapshot b ∈ es

/-- Whoever gives a batch to its sink has found it, and it comes first. -/
theorem Leading.begins (h : c.Leading) (hdistinct : c.Distinct) (hcustody : c.Custody bound)
    (hopens : c.OpensWithin bound) {who : Stamp} {b : Batch} (hbegins : c.Begins e who b) :
    (c.perform e).2.outbox = c.outbox ∧
    ∃ w, (who.node, w) ∈ c.crew ∧ w.name = who.worker ∧
      b.Polled c.journal who.node who.worker ∧ b.Leads c.outbox w.settings.batchSize := by
  rcases hbegins with ⟨es, snapshot, hjournal, hbegan⟩
  rcases step_cases hdistinct hcustody hopens e with hout | ⟨node, worker, skip, others, hturned⟩
  · -- Apart from turns there are only reports.
    rcases hout.journal with ⟨ns, heq⟩
    rw [List.append_cancel_right (hjournal.symm.trans heq)] at hbegan
    rcases List.mem_map.mp (List.mem_reverse.mp hbegan) with ⟨_, _, hnotice⟩
    cases hnotice
  · have hmem := mem_crew_of_mem hturned.node_mem hturned.worker_mem
    have hsound := hcustody.sound node hturned.node_mem worker hturned.worker_mem
    have htraced := (hturned.traced hcustody hdistinct).1
    rcases (hturned.conducts hcustody).grows with ⟨es', hgrows, hdue⟩
    rcases htraced.signed with ⟨es'', hsigned, hstamps⟩
    have hnew : es = es' :=
      List.append_cancel_right (hjournal.symm.trans (hturned.journal_eq.trans hgrows))
    have hnew' : es = es'' :=
      List.append_cancel_right (hjournal.symm.trans (hturned.journal_eq.trans hsigned))
    rcases hdue _ (hnew ▸ hbegan) with ⟨handover, hwait, rfl⟩
    obtain rfl : who = (c.scene node worker skip).stamp := hstamps _ (hnew' ▸ hbegan) who rfl
    have hwaits := hsound.waits
    rw [Worker.Waits, show worker.wait = .applying handover from hwait] at hwaits
    refine ⟨?_, worker, hmem, rfl, hwaits.1.polled, h.leads _ hmem _ (Or.inr ?_)⟩
    · -- Only who has waited for a deletion changes the outbox.
      rw [hturned.outbox_eq]
      rcases htraced.outbox with heq | ⟨due, h', count, hdeleting, _⟩
      · exact heq
      · cases hwait.symm.trans hdeleting
    · rw [Worker.carried?, show worker.wait = .applying handover from hwait]

theorem leading_run (h : c.Leading) (hdistinct : c.Distinct) (hcustody : c.Custody bound)
    (hopens : Always (OpensWithin bound) c events) :
    (c.run events).Leading ∧ (c.run events).Distinct := by
  induction events generalizing c with
  | nil => exact ⟨h, hdistinct⟩
  | cons e events ih =>
      exact ih (leading_step h hdistinct hcustody hopens.1 e)
        (distinct_step hdistinct hcustody hopens.1 e) (custody_step hcustody hopens.1 e) hopens.2

/-- Any number of workers come, fail, and pass shards on, and events are added and deleted
    at any time. Whenever a worker gives a batch to its sink, it has found the batch before,
    and the batch comes first in its shard at that instant. So nothing is given to a sink
    while an earlier event with its key waits outside the batch. -/
theorem batches_come_first (epoch : Int) (agents : AgentTable) (outbox : Outbox)
    (hord : outbox.Ordered) (hhashed : outbox.Hashed) (events : List Event) (e : Event)
    (who : Stamp) (b : Batch)
    (hbegins : (({ epoch, agents, outbox } : Cluster).run events).Begins e who b) :
    ((({ epoch, agents, outbox } : Cluster).run events).perform e).2.outbox =
      (({ epoch, agents, outbox } : Cluster).run events).outbox ∧
    (∃ w, (who.node, w) ∈ (({ epoch, agents, outbox } : Cluster).run events).crew ∧
      w.name = who.worker ∧
      b.Polled (({ epoch, agents, outbox } : Cluster).run events).journal who.node who.worker ∧
      b.Leads (({ epoch, agents, outbox } : Cluster).run events).outbox w.settings.batchSize) ∧
    ∀ sent ∈ b.events, ∀ p ∈ (({ epoch, agents, outbox } : Cluster).run events).outbox.rows,
      p.2.key = sent.key → p.1 < sent.id → p ∈ b.events.map OutboxEvent.stored := by
  rcases exists_always_opensWithin { epoch, agents, outbox } (events ++ [e]) with ⟨bound, hopens⟩
  rcases hopens.append with ⟨hopens, hopens'⟩
  have hdistinct := distinct_init epoch agents outbox
  have hcustody := custody_init bound epoch agents outbox
  rcases leading_run (leading_init epoch hord hhashed) hdistinct hcustody hopens
    with ⟨hleading, hdistinct'⟩
  rcases hleading.begins hdistinct' (custody_run hcustody hopens) hopens'.1 hbegins
    with ⟨houtbox, w, hw, hname, hpolled, hleads⟩
  exact ⟨houtbox, ⟨w, hw, hname, hpolled, hleads⟩,
    fun _ hsent _ hp => hleads.not_overtaken hleading.hashed hsent hp⟩

/-- Four events, two for each of two shards. -/
def interleaved : Outbox := ["a", "k", "a", "k"].foldl (fun t key => t.enqueue key []) {}

/-- A worker finds both events of the second shard, and its sink refuses them. While the batch
    rests, one of them is deleted and another event comes. -/
def resting : List Event :=
  [.addSingle { name := "n", sink := .scripted [{ ending := .refused "busy" }] {} }
      { processors := { pollingInterval := 1, pulseInterval := 1, pulseExpiration := 3,
                        retryDelay := 2, batchSize := 2 } } "w" (some ⟨2, 1, Assignment.second_lt⟩),
    .start "n"] ++ milliseconds 2 ++ [.enqueue ["a"], .deleteEvents [3], .turn 0 0, .turn 0 0]

/-- The batch, which has failed once. -/
def rested : Batch where
  events := [⟨1, "a", routingHash "a", []⟩, ⟨3, "a", routingHash "a", []⟩]
  agentId := some 1
  assignment := some ⟨2, 1, Assignment.second_lt⟩
  attempts := 1

/-- The sink is given the batch once more, when one of its events is gone. -/
theorem batches_come_first_resting :
    interleaved.Ordered ∧ interleaved.Hashed ∧
    (({ epoch := 0, outbox := interleaved } : Cluster).run resting).Begins (.turn 0 0)
      ⟨"n", "w", 2⟩ rested ∧
    (({ epoch := 0, outbox := interleaved } : Cluster).run resting).outbox.ids = [1, 2, 4, 5] ∧
    (∃ w, ("n", w) ∈ (({ epoch := 0, outbox := interleaved } : Cluster).run resting).crew ∧
      w.name = "w" ∧
      rested.Polled (({ epoch := 0, outbox := interleaved } : Cluster).run resting).journal
        "n" "w" ∧
      rested.Leads (({ epoch := 0, outbox := interleaved } : Cluster).run resting).outbox
        w.settings.batchSize) := by
  have hadded := Outbox.Succeeds.enqueueAll ["a", "k", "a", "k"] {}
  have hord : interleaved.Ordered := hadded.ordered Table.ordered_empty
  have hhashed : interleaved.Hashed := hadded.hashed fun _ hp => absurd hp List.not_mem_nil
  have hbegins : (({ epoch := 0, outbox := interleaved } : Cluster).run resting).Begins
      (.turn 0 0) ⟨"n", "w", 2⟩ rested := by
    refine ⟨[.deleting ⟨"n", "w", 2⟩ ⟨some 1, .running, some ⟨2, 1, by decide⟩, some 5⟩ rested,
      .ended ⟨"n", "w", 2⟩ rested .accepted,
      .began ⟨"n", "w", 2⟩ ⟨some 1, .running, some ⟨2, 1, by decide⟩, some 5⟩ rested], _, ?_,
      List.mem_cons_of_mem _ (List.mem_cons_of_mem _ List.mem_cons_self)⟩
    decide +kernel
  exact ⟨hord, hhashed, hbegins, by decide +kernel,
    (batches_come_first 0 {} interleaved hord hhashed resting (.turn 0 0) ⟨"n", "w", 2⟩ rested
      hbegins).2.1⟩

end Cluster

end OutboxCluster
