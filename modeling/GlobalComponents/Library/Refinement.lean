import GlobalComponents.Library.Run

/-! Refinement between a machine and a specification of what its results may be.

A specification relates states, events and results, so it may leave a choice open that the machine
makes. The machine refines it when every run gives results that the specification also gives.
-/

set_option autoImplicit false

namespace GlobalComponents.Library

/-- What each event may do and which result it may give. -/
structure Spec (State Event Result : Type) where
  step : State → Event → Result → State → Prop

namespace Spec

variable {State Event Result : Type} {spec : Spec State Event Result}

inductive Run (spec : Spec State Event Result) (start : State) :
    List (Event × Result) → State → Prop where
  | start : Run spec start [] start
  | next {trace : List (Event × Result)} {before after : State} {event : Event} {result : Result} :
      Run spec start trace before → spec.step before event result after →
      Run spec start (trace ++ [(event, result)]) after

theorem Run.snoc_inv {start final : State} {trace : List (Event × Result)} {event : Event}
    {result : Result} (run : spec.Run start (trace ++ [(event, result)]) final) :
    ∃ before, spec.Run start trace before ∧ spec.step before event result final := by
  generalize whole : trace ++ [(event, result)] = full at run
  cases run with
  | start => simp at whole
  | next run step =>
    obtain ⟨rfl, last⟩ := List.append_inj' whole rfl
    obtain ⟨rfl, rfl⟩ : event = _ ∧ result = _ := by simpa using last
    exact ⟨_, run, step⟩

end Spec

variable {State Abstract Event Result : Type}

/-- Forward simulation: when each step that meets the condition is one of the specification, so is
the whole run. -/
theorem Machine.Run.refines {machine : Machine State Event Result}
    {spec : Spec Abstract Event Result} {meets : State → Event → Prop}
    (Rel : State → Abstract → Prop)
    (simulated : ∀ before abstract event after result, Rel before abstract →
      machine.allowed before event → meets before event →
      machine.step before event = some (after, result) →
      ∃ abstract', spec.step abstract event result abstract' ∧ Rel after abstract')
    {start final : State} {trace : List (Event × Result)} {begin : Abstract}
    (run : machine.Run start trace final) (initially : Rel start begin)
    (all : machine.EveryStep start trace meets) :
    ∃ abstract, spec.Run begin trace abstract ∧ Rel final abstract := by
  induction run with
  | start => exact ⟨begin, .start, initially⟩
  | @next trace before after event result run allowed step ih =>
    obtain ⟨abstract, early, related⟩ := ih (all.early (List.prefix_append _ _))
    have met := all trace event result (List.prefix_refl _) before run
    obtain ⟨abstract', last, related⟩ := simulated _ _ _ _ _ related allowed met step
    exact ⟨abstract', early.next last, related⟩

/-- The condition is exact when a step that misses it gives a result that the specification does not
give, and the specification leaves no choice of the state behind a result. -/
theorem Machine.Run.refines_iff {machine : Machine State Event Result}
    {spec : Spec Abstract Event Result} {meets : State → Event → Prop}
    (Rel : State → Abstract → Prop)
    (simulated : ∀ before abstract event after result, Rel before abstract →
      machine.allowed before event → meets before event →
      machine.step before event = some (after, result) →
      ∃ abstract', spec.step abstract event result abstract' ∧ Rel after abstract')
    (necessary : ∀ before abstract event after result abstract', Rel before abstract →
      machine.allowed before event → machine.step before event = some (after, result) →
      spec.step abstract event result abstract' → meets before event)
    (settled : ∀ abstract event result left right, spec.step abstract event result left →
      spec.step abstract event result right → left = right)
    {start final : State} {trace : List (Event × Result)} {begin : Abstract}
    (run : machine.Run start trace final) (initially : Rel start begin) :
    (∃ abstract, spec.Run begin trace abstract ∧ Rel final abstract) ↔
      machine.EveryStep start trace meets := by
  refine ⟨?_, run.refines Rel simulated initially⟩
  rintro ⟨abstract, image, -⟩
  -- both runs go through related states, since the results fix the abstract ones
  suffices machine.EveryStep start trace meets ∧ Rel final abstract from this.1
  -- on the run, with the state of the specification that belongs to its end
  induction run generalizing abstract with
  | start =>
    generalize empty : ([] : List (Event × Result)) = trace at image
    cases image with
    | start => exact ⟨.start, initially⟩
    | next => simp at empty
  | @next trace before after event result run allowed step ih =>
    obtain ⟨middle, early, last⟩ := image.snoc_inv
    obtain ⟨all, related⟩ := ih middle early
    have met := necessary _ _ _ _ _ _ related allowed step last
    obtain ⟨abstract', taken, related'⟩ := simulated _ _ _ _ _ related allowed met step
    rw [settled _ _ _ _ _ last taken]
    exact ⟨all.next run met, related'⟩

end GlobalComponents.Library
