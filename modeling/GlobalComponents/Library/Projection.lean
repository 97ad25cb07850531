import GlobalComponents.Library.Run

/-! Runs seen through a part of the state.

A machine projects to a machine for the part when each of its steps either is a step of the part, with
the part's own event and result, or leaves the part as it is.
-/

set_option autoImplicit false

namespace GlobalComponents.Library

variable {State Event Result PartState PartEvent PartResult : Type}

/-- `own` says which steps are the part's, and how it sees them. -/
structure Projection (machine : Machine State Event Result)
    (part : Machine PartState PartEvent PartResult) (Inv : State → Prop) where
  view : State → PartState
  own : Event × Result → Option (PartEvent × PartResult)
  others : ∀ {before event after result}, Inv before → machine.allowed before event →
    machine.step before event = some (after, result) → own (event, result) = none →
    view after = view before
  steps : ∀ {before event after result event' result'}, Inv before →
    machine.allowed before event → machine.step before event = some (after, result) →
    own (event, result) = some (event', result') →
    part.allowed (view before) event' ∧ part.step (view before) event' = some (view after, result')

namespace Projection

variable {machine : Machine State Event Result} {part : Machine PartState PartEvent PartResult}
  {Inv : State → Prop}

/-- The run is one of the part, over the steps that are the part's. -/
theorem run (projection : Projection machine part Inv) {start final : State}
    {trace : List (Event × Result)} (run : machine.Run start trace final)
    (holds : ∀ early state, machine.Run start early state → Inv state) :
    part.Run (projection.view start) (trace.filterMap projection.own) (projection.view final) := by
  induction run with
  | start => exact .start
  | @next trace before after event result run allowed step ih =>
    have inside := holds trace before run
    rw [List.filterMap_append]
    cases mine : projection.own (event, result) with
    | none =>
      rw [projection.others inside allowed step mine, List.filterMap_cons_none mine,
        List.filterMap_nil, List.append_nil]
      exact ih
    | some seen =>
      obtain ⟨allowed', step'⟩ := projection.steps inside allowed step mine
      rw [List.filterMap_cons_some mine, List.filterMap_nil]
      exact ih.next allowed' step'

end Projection

end GlobalComponents.Library
