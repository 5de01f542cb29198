import OutboxCluster.Proofs.Outbox
import OutboxCluster.Store

/-!
# What Requests Do to the Outbox

A store is used by many at once. Sessions of agents are opened and dropped while producers
add events in transactions of their own, and the store may be closed and opened again in
between. Whatever is asked of it, its outbox only loses events or gets ones that come after
all others, with the hashes of their keys. So the laws of an outbox hold after every
sequence of requests.

The one exception is an event that is stored as it is, past the operations that compute the
hash. It is admitted here if it has the hash of its key.

## Main definitions

* `Request.KeepsHashes`: What is stored as it is has the hash of its key.
* `Store.run`: The store after a sequence of requests.

## Theorems

* `Store.succeeds_handle`: What one request does to the outbox.
* `Store.succeeds_run`: What a sequence of requests does to it.
* `Store.ordered_run`, `Store.hashed_run`: The outbox of a store that was empty.
-/

namespace OutboxCluster

/-- Events that are added together come after those that are there. -/
theorem Outbox.Succeeds.insertAll (events : List (String × List UInt8)) (t : Outbox) :
    Outbox.Succeeds t
      (t.insertAll (events.map fun (key, payload) => EventRow.ofKey key payload)) := by
  rw [Table.insertAll_eq_foldl]
  induction events generalizing t with
  | nil => exact refl t
  | cons event events ih => exact (enqueue t event.1 event.2).trans (ih _)

/-- An event that is stored as it is has the hash of its key. -/
def Request.KeepsHashes : Request → Prop
  | .putEvent row => row.hash = (routingHash row.key).toNat
  | _ => True

instance (r : Request) : Decidable r.KeepsHashes :=
  match r with
  | .putEvent row => inferInstanceAs (Decidable (row.hash = (routingHash row.key).toNat))
  | .begin | .commit | .rollback | .list _ | .create _ | .update _ | .delete _ | .enqueue ..
  | .enqueueAll _ | .enqueueIn .. | .search .. | .deleteEvents _ | .count | .putAgent _ | .close
  | .reopen => instDecidableTrue

namespace Store

/-- The store after these requests. -/
def run (s : Store) (requests : List Request) : Store :=
  requests.foldl (fun s request => (s.handle request).2) s

theorem outbox_inSession (s : Store)
    (act : AgentTable → Except StoreError (Answer × AgentTable)) :
    (s.inSession act).2.outbox = s.outbox := by
  unfold inSession
  split
  · rfl
  · split <;> rfl

/-- A request that a closed store refuses has no effect on it. -/
theorem succeeds_whenOpen {s : Store} {act : Except StoreError Answer × Store}
    (h : Outbox.Succeeds s.outbox act.2.outbox) :
    Outbox.Succeeds s.outbox (s.whenOpen act).2.outbox := by
  unfold whenOpen
  split
  · exact Outbox.Succeeds.refl _
  · exact h

/-- A request takes events away, or adds ones that come after all others. -/
theorem succeeds_handle (s : Store) {request : Request} (hkeeps : request.KeepsHashes) :
    Outbox.Succeeds s.outbox (s.handle request).2.outbox := by
  cases request with
  | begin => exact succeeds_whenOpen (Outbox.Succeeds.refl _)
  | commit =>
      simp only [handle]
      split <;> exact Outbox.Succeeds.refl _
  | rollback => exact Outbox.Succeeds.refl _
  | list | create | update | delete =>
      simp only [handle, outbox_inSession]
      exact Outbox.Succeeds.refl _
  | enqueue key payload => exact succeeds_whenOpen (Outbox.Succeeds.enqueue _ key payload)
  | enqueueAll events =>
      simp only [handle]
      split
      · exact Outbox.Succeeds.refl _
      · exact succeeds_whenOpen (Outbox.Succeeds.insertAll events _)
  | enqueueIn key payload commits =>
      refine succeeds_whenOpen ?_
      -- What is enqueued and not committed has never been there.
      cases commits with
      | true => exact Outbox.Succeeds.enqueue _ key payload
      | false => exact Outbox.Succeeds.refl _
  | search => exact succeeds_whenOpen (Outbox.Succeeds.refl _)
  | deleteEvents ids =>
      simp only [handle]
      split
      · exact Outbox.Succeeds.refl _
      · exact succeeds_whenOpen (Outbox.Succeeds.delete _ ids)
  | count => exact succeeds_whenOpen (Outbox.Succeeds.refl _)
  | putAgent => exact succeeds_whenOpen (Outbox.Succeeds.refl _)
  | putEvent row => exact succeeds_whenOpen (Outbox.Succeeds.insert _ hkeeps)
  | close | reopen => exact Outbox.Succeeds.refl _

theorem succeeds_run (s : Store) {requests : List Request}
    (hkeeps : ∀ r ∈ requests, r.KeepsHashes) :
    Outbox.Succeeds s.outbox (s.run requests).outbox := by
  induction requests generalizing s with
  | nil => exact Outbox.Succeeds.refl _
  | cons request requests ih =>
      have hfirst := s.succeeds_handle (hkeeps request List.mem_cons_self)
      exact hfirst.trans (ih _ fun r hr => hkeeps r (List.mem_cons_of_mem _ hr))

section FromEmpty

variable {requests : List Request}

theorem ordered_run (hkeeps : ∀ r ∈ requests, r.KeepsHashes) :
    (({} : Store).run requests).outbox.Ordered :=
  (succeeds_run {} hkeeps).ordered Table.ordered_empty

theorem hashed_run (hkeeps : ∀ r ∈ requests, r.KeepsHashes) :
    (({} : Store).run requests).outbox.Hashed :=
  (succeeds_run {} hkeeps).hashed fun _ hp => absurd hp List.not_mem_nil

end FromEmpty

end Store

end OutboxCluster
