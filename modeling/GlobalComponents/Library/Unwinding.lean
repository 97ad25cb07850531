import GlobalComponents.Library.Run

/-! Noninterference of the events of one party with the results of another.

The second of two runs has only the events of the observer. If a relation of the states is kept by
every event of the others in the first run alone, and by every event of the observer in both, with the
same result, then the observer sees the same results in both runs.
-/

set_option autoImplicit false

namespace GlobalComponents.Library.Machine

variable {State Event Result : Type} {machine : Machine State Event Result}

structure Unwinding (machine : Machine State Event Result) (own : Event → Bool)
    (Alike : State → State → Prop) : Prop where
  others : ∀ s t event after result, Alike s t → own event = false → machine.allowed s event →
    machine.step s event = some (after, result) → Alike after t
  observer : ∀ s t event after after' result result', Alike s t → own event = true →
    machine.allowed s event → machine.allowed t event →
    machine.step s event = some (after, result) → machine.step t event = some (after', result') →
    result = result' ∧ Alike after after'

def observed (own : Event → Bool) (trace : List (Event × Result)) : List (Event × Result) :=
  trace.filter fun step => own step.1

theorem observed_concat (own : Event → Bool) (trace : List (Event × Result)) (event : Event)
    (result : Result) : observed own (trace ++ [(event, result)]) =
      observed own trace ++ if own event then [(event, result)] else [] := by
  unfold observed
  rw [List.filter_append]
  cases here : own event with
  | true => simp [here]
  | false => simp [here]

/-- The run without the events of the others has the same results for the observer. -/
theorem Unwinding.purged {own : Event → Bool} {Alike : State → State → Prop}
    (unwinding : machine.Unwinding own Alike) {start start' final final' : State}
    {trace alone : List (Event × Result)} (alike : Alike start start')
    (run : machine.Run start trace final) (run' : machine.Run start' alone final')
    (same : alone.map Prod.fst = (observed own trace).map Prod.fst) :
    alone = observed own trace ∧ Alike final final' := by
  -- on the whole run: an event of another is dropped, one of the observer is matched
  induction run generalizing alone final' with
  | start =>
    obtain rfl : alone = [] := List.map_eq_nil_iff.mp same
    generalize empty : ([] : List (Event × Result)) = nothing at run'
    cases run' with
    | start => exact ⟨rfl, alike⟩
    | next => simp at empty
  | @next trace before after event result run allowed step ih =>
    rw [observed_concat] at same ⊢
    cases mine : own event with
    | false =>
      rw [mine] at same
      simp only [Bool.false_eq_true, if_false, List.append_nil] at same ⊢
      obtain ⟨results, alike⟩ := ih run' same
      exact ⟨results, unwinding.others _ _ _ _ _ alike mine allowed step⟩
    | true =>
      rw [mine] at same
      simp only [if_true, List.map_append, List.map_singleton] at same ⊢
      obtain ⟨early, last, rfl, earlier, latest⟩ := List.map_eq_append_iff.mp same
      obtain ⟨⟨event', result'⟩, rfl, same'⟩ := List.map_eq_singleton_iff.mp latest
      dsimp only at same'
      subst same'
      obtain ⟨middle, run', allowed', step'⟩ := run'.snoc_inv
      obtain ⟨results, alike⟩ := ih run' earlier
      obtain ⟨result, alike⟩ := unwinding.observer _ _ _ _ _ _ _ alike mine allowed allowed' step step'
      rw [results, result]
      exact ⟨rfl, alike⟩

end GlobalComponents.Library.Machine
