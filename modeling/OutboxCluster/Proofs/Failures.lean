import OutboxCluster.Closer

/-!
# How Failures are Reported

Several things can fail at once, and their host gets one outcome. There are two ways to
make one. Workers are reported by what they are worth: nothing if none has failed, the bare
error of the one that has, or all of them together (`CoordinationError.collect`). The steps
of a shutdown are reported together even if there is only one failure, so that the host can
tell a shutdown that failed from a worker that did (`Closer.finish`).

In either way no failure is lost and none is made up, and they stand in the order in which
they came. For the steps of a shutdown this needs an induction, since a closer takes them
one at a time; what it has noted so far stays in front.

## Main definitions

* `failure?`: The error of an outcome.
* `CoordinationError.Reports`: An outcome that stands for some errors.

## Theorems

* `collect_reports`: The outcome of several workers.
* `Closer.errors_closeAll`, `Closer.notices_closeAll`: What a closer has noted.
* `Closer.finish_closeAll`, `Closer.finish_cases`: The outcome of a shutdown.
-/

namespace OutboxCluster

/-- The error of an outcome, if it is one. -/
def failure? : Except CoordinationError Unit → Option CoordinationError
  | .ok () => none
  | .error e => some e

namespace CoordinationError

/-- No error is a success, one stands for itself, and several are reported together. -/
structure Reports (errors : List CoordinationError) (result : Except CoordinationError Unit) :
    Prop where
  none : errors = [] → result = .ok ()
  one : ∀ e, errors = [e] → result = .error e
  several : 2 ≤ errors.length → result = .error (.multiple errors)

theorem collect_reports (errors : List CoordinationError) : Reports errors (collect errors) where
  none := by
    rintro rfl
    rfl
  one := by
    rintro e rfl
    rfl
  several := by
    intro hlen
    match errors, hlen with
    | _ :: _ :: _, _ => rfl

end CoordinationError

namespace Closer

/-- The errors of the steps that fail, in order. -/
def failures (steps : List (String × Except CoordinationError Unit)) : List CoordinationError :=
  steps.filterMap fun step => failure? step.2

/-- The notices about the steps that fail, in order. -/
def failureNotices (steps : List (String × Except CoordinationError Unit)) : List Notice :=
  steps.filterMap fun step => (failure? step.2).map fun _ => .closeFailed step.1

/-- What a closer has noted already stays in front. -/
theorem foldl_close (steps : List (String × Except CoordinationError Unit)) (c : Closer) :
    steps.foldl (fun c (resource, outcome) => c.close resource outcome) c =
      { errors := c.errors ++ failures steps, notices := c.notices ++ failureNotices steps } := by
  induction steps generalizing c with
  | nil => simp only [List.foldl_nil, failures, failureNotices, List.filterMap_nil, List.append_nil]
  | cons step steps ih =>
      rcases step with ⟨resource, outcome⟩
      rw [List.foldl_cons, ih]
      cases outcome with
      | ok u => rfl
      | error e =>
          simp only [close, failures, failureNotices, failure?, List.filterMap_cons,
            Option.map_some, List.append_assoc, List.singleton_append]

theorem errors_closeAll (steps : List (String × Except CoordinationError Unit)) :
    (closeAll steps).errors = failures steps := by
  rw [closeAll, foldl_close]
  exact List.nil_append _

theorem notices_closeAll (steps : List (String × Except CoordinationError Unit)) :
    (closeAll steps).notices = failureNotices steps := by
  rw [closeAll, foldl_close]
  exact List.nil_append _

/-- A shutdown succeeds if no step fails, and otherwise reports the failures. -/
theorem finish_closeAll (steps : List (String × Except CoordinationError Unit)) :
    (closeAll steps).finish =
      if failures steps = [] then .ok () else .error (.shutdown (failures steps)) := by
  rw [finish, errors_closeAll]
  simp only [List.isEmpty_iff]

theorem finish_cases (steps : List (String × Except CoordinationError Unit)) :
    failures steps = [] ∧ (closeAll steps).finish = .ok () ∨
      failures steps ≠ [] ∧ (closeAll steps).finish = .error (.shutdown (failures steps)) := by
  rw [finish_closeAll]
  by_cases h : failures steps = []
  · exact Or.inl ⟨h, if_pos h⟩
  · exact Or.inr ⟨h, if_neg h⟩

end Closer

end OutboxCluster
