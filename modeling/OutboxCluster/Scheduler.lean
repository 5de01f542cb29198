import OutboxCluster.Error
import OutboxCluster.Notice

/-!
# The Scheduler of Workers

A scheduler has one slot per worker and no more. A slot stays taken when its
worker is done, until the scheduler is shut down. Shutting down ends every
worker at the point where it waits, frees all slots, and reports the workers
that had ended by a fault of their own; that a worker was ended by the shutdown
is nothing to report.

What a worker is does not matter here, so the type is a parameter.

## Main definitions

* `Scheduler`: The slots and the workers in them.
* `slotsOf`: The slots of some of the workers.
* `Scheduler.spawn`: A worker put into a free slot.
* `Scheduler.shutdownOutcome`: The outcome of ending all workers.

## Theorems

* `mem_slotsOf`, `slotsOf_ascending`: Which slots these are, and their order.
-/

namespace OutboxCluster

/-- The slots of the workers that pass a test, in order. -/
def slotsOf {ω : Type} (test : ω → Bool) (workers : List ω) : List Nat :=
  (workers.zipIdx.filter fun p => test p.1).map (·.2)

section Slots

variable {ω υ : Type} {test : ω → Bool} {workers : List ω}

theorem mem_slotsOf {slot : Nat} :
    slot ∈ slotsOf test workers ↔ ∃ w, workers[slot]? = some w ∧ test w = true := by
  simp only [slotsOf, List.mem_map, List.mem_filter]
  constructor
  · rintro ⟨⟨w, i⟩, ⟨hmem, htest⟩, rfl⟩
    exact ⟨w, List.mem_zipIdx_iff_getElem?.mp hmem, htest⟩
  · rintro ⟨w, hw, htest⟩
    exact ⟨(w, slot), ⟨List.mem_zipIdx_iff_getElem?.mpr hw, htest⟩, rfl⟩

theorem slotsOf_ascending : (slotsOf test workers).Pairwise (· < ·) := by
  have hall : (workers.zipIdx.map (·.2)).Pairwise (· < ·) := by
    rw [List.zipIdx_map_snd]
    exact List.pairwise_lt_range'
  exact hall.sublist (List.filter_sublist.map _)

/-- Only the answers of the test matter. -/
theorem slotsOf_map (f : υ → ω) (us : List υ) :
    slotsOf test (us.map f) = slotsOf (fun u => test (f u)) us := by
  rw [slotsOf, List.zipIdx_map, List.filter_map, List.map_map]
  rfl

end Slots

/-- Workers in the order in which they were accepted. -/
structure Scheduler (ω : Type) where
  capacity : Nat
  workers : List ω := []

namespace Scheduler

variable {ω : Type}

/-- Put a worker into a free slot. -/
def spawn (s : Scheduler ω) (worker : ω) : Except CoordinationError (Scheduler ω) :=
  if s.capacity ≤ s.workers.length then .error (.schedulerFull s.capacity)
  else .ok { s with workers := s.workers ++ [worker] }

/-- The outcome of ending all workers, where `faulty` tells those that had
    ended by a fault of their own. They are named by their slots, in order. -/
def shutdownOutcome (s : Scheduler ω) (faulty : ω → Bool) : Except CoordinationError Unit :=
  CoordinationError.collect ((slotsOf faulty s.workers).map .join)

/-- What ending all workers reports; without workers there is nothing to
    end. -/
def shutdownNotices (s : Scheduler ω) : List Notice :=
  if s.workers.isEmpty then [] else [.schedulerShutDown s.capacity]

/-- The scheduler after its workers were ended. -/
def emptied (s : Scheduler ω) : Scheduler ω := { s with workers := [] }

end Scheduler

end OutboxCluster
