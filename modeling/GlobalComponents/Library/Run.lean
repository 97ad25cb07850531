import Mathlib.Data.List.Infix

/-! Finite runs of a component inside its environment.

The environment chooses the events and all results that foreign code returns, so a step is a
function. A step that faults (a failed assertion, an access outside an array) has no successor.
-/

set_option autoImplicit false

namespace GlobalComponents.Library

/-- `allowed` is what the environment may ask for, `step` what the component then does. -/
structure Machine (State Event Result : Type) where
  allowed : State → Event → Prop
  step : State → Event → Option (State × Result)

namespace Machine

variable {State Event Result : Type} {machine : Machine State Event Result}

/-- The trace lists the events of the run with their results, the oldest first. -/
inductive Run (machine : Machine State Event Result) (start : State) :
    List (Event × Result) → State → Prop where
  | start : Run machine start [] start
  | next {trace : List (Event × Result)} {before after : State} {event : Event} {result : Result} :
      Run machine start trace before → machine.allowed before event →
      machine.step before event = some (after, result) →
      Run machine start (trace ++ [(event, result)]) after

theorem Run.on {start before after : State} {trace : List (Event × Result)} {result : Result}
    (run : machine.Run start trace before) (event : Event) (allowed : machine.allowed before event)
    (step : machine.step before event = some (after, result)) :
    machine.Run start (trace ++ [(event, result)]) after := .next run allowed step

theorem Run.invariant {start final : State} {trace : List (Event × Result)} {Inv : State → Prop}
    (run : machine.Run start trace final) (initially : Inv start)
    (preserved : ∀ before event after result, Inv before → machine.allowed before event →
      machine.step before event = some (after, result) → Inv after) : Inv final := by
  induction run with
  | start => exact initially
  | next _ allowed step ih => exact preserved _ _ _ _ ih allowed step

theorem Run.append {start middle final : State} {first rest : List (Event × Result)}
    (before : machine.Run start first middle) (after : machine.Run middle rest final) :
    machine.Run start (first ++ rest) final := by
  induction after with
  | start => simpa using before
  | next _ allowed step ih =>
    rw [← List.append_assoc]
    exact .next ih allowed step

theorem Run.snoc_inv {start final : State} {trace : List (Event × Result)} {event : Event}
    {result : Result} (run : machine.Run start (trace ++ [(event, result)]) final) :
    ∃ before, machine.Run start trace before ∧ machine.allowed before event ∧
      machine.step before event = some (final, result) := by
  generalize whole : trace ++ [(event, result)] = full at run
  cases run with
  | start => simp at whole
  | next run allowed step =>
    obtain ⟨rfl, last⟩ := List.append_inj' whole rfl
    obtain ⟨rfl, rfl⟩ : event = _ ∧ result = _ := by simpa using last
    exact ⟨_, run, allowed, step⟩

theorem Run.split {start final : State} {first rest : List (Event × Result)}
    (run : machine.Run start (first ++ rest) final) :
    ∃ middle, machine.Run start first middle ∧ machine.Run middle rest final := by
  induction rest using List.reverseRecOn generalizing final with
  | nil => exact ⟨final, by simpa using run, .start⟩
  | append_singleton rest last ih =>
    rw [← List.append_assoc] at run
    obtain ⟨before, run, allowed, step⟩ := run.snoc_inv
    obtain ⟨middle, early, late⟩ := ih run
    exact ⟨middle, early, .next late allowed step⟩

theorem Run.deterministic {start first second : State} {trace : List (Event × Result)}
    (left : machine.Run start trace first) (right : machine.Run start trace second) :
    first = second := by
  induction trace using List.reverseRecOn generalizing first second with
  | nil =>
    generalize empty : ([] : List (Event × Result)) = trace at left
    cases left with
    | start =>
      generalize empty' : ([] : List (Event × Result)) = trace at right
      cases right with
      | start => rfl
      | next => simp at empty'
    | next => simp at empty
  | append_singleton trace last ih =>
    obtain ⟨before, run, _, step⟩ := left.snoc_inv
    obtain ⟨before', run', _, step'⟩ := right.snoc_inv
    cases ih run run'
    exact (Prod.mk.inj (Option.some.inj (step.symm.trans step'))).1

theorem Run.eq_of_events {start first second : State} {trace trace' : List (Event × Result)}
    (left : machine.Run start trace first) (right : machine.Run start trace' second)
    (same : trace.map Prod.fst = trace'.map Prod.fst) : trace = trace' := by
  induction left generalizing trace' second with
  | start => exact (List.map_eq_nil_iff.mp same.symm).symm
  | @next trace before after event result left _ step ih =>
    rw [List.map_append, List.map_singleton] at same
    obtain ⟨early, last, rfl, earlier, latest⟩ := List.map_eq_append_iff.mp same.symm
    obtain ⟨⟨event', result'⟩, rfl, same'⟩ := List.map_eq_singleton_iff.mp latest
    dsimp only at same'
    subst same'
    obtain ⟨before', right, _, step'⟩ := right.snoc_inv
    obtain rfl := ih right earlier.symm
    cases left.deterministic right
    rw [(Prod.mk.inj (Option.some.inj (step.symm.trans step'))).2]

/-- The machine with a ledger that is written from the outside and read by no step. -/
def record {Ledger : Type} (machine : Machine State Event Result)
    (note : State → Event → Result → Ledger → Ledger) : Machine (State × Ledger) Event Result where
  allowed s := machine.allowed s.1
  step s event := (machine.step s.1 event).map fun (after, result) =>
    ((after, note s.1 event result s.2), result)

theorem record_step {Ledger : Type} {note : State → Event → Result → Ledger → Ledger}
    {before after : State × Ledger} {event : Event} {result : Result}
    (step : (machine.record note).step before event = some (after, result)) :
    machine.step before.1 event = some (after.1, result) ∧
      after.2 = note before.1 event result before.2 := by
  obtain ⟨⟨state, answer⟩, stepped, same⟩ := Option.map_eq_some_iff.mp step
  cases same
  exact ⟨stepped, rfl⟩

theorem Run.onRecord {Ledger : Type} {note : State → Event → Result → Ledger → Ledger}
    {start before : State × Ledger} {after : State} {trace : List (Event × Result)}
    {result : Result} (run : (machine.record note).Run start trace before) (event : Event)
    (allowed : machine.allowed before.1 event)
    (step : machine.step before.1 event = some (after, result)) :
    (machine.record note).Run start (trace ++ [(event, result)])
      (after, note before.1 event result before.2) :=
  run.next allowed (Option.map_eq_some_iff.mpr ⟨_, step, rfl⟩)

theorem record_run {Ledger : Type} {note : State → Event → Result → Ledger → Ledger}
    {start final : State × Ledger} {trace : List (Event × Result)}
    (run : (machine.record note).Run start trace final) : machine.Run start.1 trace final.1 := by
  induction run with
  | start => exact .start
  | next _ allowed step ih => exact ih.next allowed (record_step step).1

theorem Run.recorded {Ledger : Type} {note : State → Event → Result → Ledger → Ledger}
    {start final : State} {trace : List (Event × Result)} (run : machine.Run start trace final)
    (ledger : Ledger) :
    ∃ filled, (machine.record note).Run (start, ledger) trace (final, filled) := by
  induction run with
  | start => exact ⟨ledger, .start⟩
  | next _ allowed step ih =>
    obtain ⟨filled, run⟩ := ih
    exact ⟨_, run.next allowed (Option.map_eq_some_iff.mpr ⟨_, step, rfl⟩)⟩

/-- Every state the run passes through, its ends included, has the property. -/
def Always (machine : Machine State Event Result) (start : State) (trace : List (Event × Result))
    (holds : State → Prop) : Prop :=
  ∀ early, early <+: trace → ∀ state, machine.Run start early state → holds state

/-- Every step of the run starts in a state that meets the condition for its event. -/
def EveryStep (machine : Machine State Event Result) (start : State)
    (trace : List (Event × Result)) (meets : State → Event → Prop) : Prop :=
  ∀ early event result, early ++ [(event, result)] <+: trace →
    ∀ state, machine.Run start early state → meets state event

theorem EveryStep.early {start : State} {early trace : List (Event × Result)}
    {meets : State → Event → Prop} (all : machine.EveryStep start trace meets)
    (within : early <+: trace) : machine.EveryStep start early meets :=
  fun first event result shorter => all first event result (shorter.trans within)

theorem EveryStep.start {start : State} {meets : State → Event → Prop} :
    machine.EveryStep start [] meets := by
  rintro early event result ⟨rest, empty⟩
  simp at empty

theorem EveryStep.next {start before : State} {trace : List (Event × Result)} {event : Event}
    {result : Result} {meets : State → Event → Prop} (all : machine.EveryStep start trace meets)
    (run : machine.Run start trace before) (met : meets before event) :
    machine.EveryStep start (trace ++ [(event, result)]) meets := by
  rintro early event' result' within state reached
  rcases List.prefix_concat_iff.mp within with whole | earlier
  · obtain ⟨rfl, last⟩ := List.append_inj' whole rfl
    cases last
    cases reached.deterministic run
    exact met
  · exact all early event' result' earlier state reached

theorem everyStep_concat {start before : State} {trace : List (Event × Result)} {event : Event}
    {result : Result} {meets : State → Event → Prop} (run : machine.Run start trace before) :
    machine.EveryStep start (trace ++ [(event, result)]) meets ↔
      machine.EveryStep start trace meets ∧ meets before event :=
  ⟨fun all => ⟨all.early (List.prefix_append _ _),
    all trace event result (List.prefix_refl _) before run⟩, fun all => all.1.next run all.2⟩

theorem Run.everyStep {start final : State} {trace : List (Event × Result)}
    {meets : State → Event → Prop} (run : machine.Run start trace final)
    (met : ∀ early before event, machine.Run start early before → machine.allowed before event →
      meets before event) : machine.EveryStep start trace meets := by
  rintro early event result ⟨rest, rfl⟩ state reached
  obtain ⟨_, run, _⟩ := run.split
  obtain ⟨before, earlier, allowed, _⟩ := run.snoc_inv
  cases reached.deterministic earlier
  exact met early state event reached allowed

/-- An invariant that also speaks of the events so far, when every step meets the condition. -/
theorem EveryStep.history {start final : State} {trace : List (Event × Result)}
    {Inv : List (Event × Result) → State → Prop} {meets : State → Event → Prop}
    (all : machine.EveryStep start trace meets) (run : machine.Run start trace final)
    (initially : Inv [] start)
    (preserved : ∀ trace before event after result, Inv trace before →
      machine.allowed before event → meets before event →
      machine.step before event = some (after, result) → Inv (trace ++ [(event, result)]) after) :
    Inv trace final := by
  induction run with
  | start => exact initially
  | @next trace before after event result run allowed step ih =>
    have earlier := ih (all.early (List.prefix_append _ _))
    have met := all trace event result (List.prefix_refl _) before run
    exact preserved _ _ _ _ _ earlier allowed met step

/-- A step condition that preserves the property makes it hold all along the run. -/
theorem Always.of_everyStep {start : State} {trace : List (Event × Result)}
    {holds : State → Prop} {meets : State → Event → Prop} (initially : holds start)
    (preserved : ∀ before event after result, holds before → machine.allowed before event →
      meets before event → machine.step before event = some (after, result) → holds after)
    (all : machine.EveryStep start trace meets) : machine.Always start trace holds :=
  fun _ within _ reached => (all.early within).history reached initially fun _ => preserved

/-- Conversely, when the property never survives a step that misses the condition. -/
theorem Always.everyStep {start final : State} {trace : List (Event × Result)}
    {holds : State → Prop} {meets : State → Event → Prop}
    (run : machine.Run start trace final)
    (necessary : ∀ before event after result, holds before → machine.allowed before event →
      machine.step before event = some (after, result) → holds after → meets before event)
    (always : machine.Always start trace holds) : machine.EveryStep start trace meets := by
  rintro early event result ⟨rest, rfl⟩ state reached
  obtain ⟨after, run, _⟩ := run.split
  obtain ⟨before, earlier, allowed, step⟩ := run.snoc_inv
  cases reached.deterministic earlier
  have within : early <+: early ++ [(event, result)] ++ rest :=
    ⟨[(event, result)] ++ rest, by simp⟩
  exact necessary _ _ _ _ (always early within state reached) allowed step
    (always _ (List.prefix_append _ _) after run)

/-- Runs the machine along the events while the check allows it. -/
def exec (machine : Machine State Event Result) (check : State → Event → Bool) :
    List (Event × Result) → State → List Event → Option (List (Event × Result) × State)
  | trace, s, [] => some (trace, s)
  | trace, s, event :: events =>
    if check s event then
      match machine.step s event with
      | some (after, result) => exec machine check (trace ++ [(event, result)]) after events
      | none => none
    else none

theorem exec_reached {check : State → Event → Bool} {meets : State → Event → Prop}
    {start before final : State} {trace whole : List (Event × Result)} {events : List Event}
    (sound : ∀ early s event, machine.Run start early s → check s event = true →
      machine.allowed s event ∧ meets s event)
    (run : machine.Run start trace before) (every : machine.EveryStep start trace meets)
    (done : machine.exec check trace before events = some (whole, final)) :
    machine.Run start whole final ∧ machine.EveryStep start whole meets ∧
      whole.map Prod.fst = trace.map Prod.fst ++ events := by
  induction events generalizing trace before with
  | nil =>
    cases done
    exact ⟨run, every, by simp⟩
  | cons event events ih =>
    rw [exec] at done
    split at done
    · next checked =>
      obtain ⟨allowed, met⟩ := sound _ _ _ run checked
      split at done
      · next after result step =>
        obtain ⟨run, every, same⟩ := ih (.next run allowed step) (every.next run met) done
        exact ⟨run, every, by simp [same]⟩
      · cases done
    · cases done

theorem exec_run {check : State → Event → Bool} {meets : State → Event → Prop}
    (sound : ∀ s event, check s event = true → machine.allowed s event ∧ meets s event)
    {start before final : State} {trace whole : List (Event × Result)} {events : List Event}
    (run : machine.Run start trace before) (every : machine.EveryStep start trace meets)
    (done : machine.exec check trace before events = some (whole, final)) :
    machine.Run start whole final ∧ machine.EveryStep start whole meets ∧
      whole.map Prod.fst = trace.map Prod.fst ++ events :=
  exec_reached (fun _ s event _ => sound s event) run every done

end Machine

section
variable {Event Result : Type}

def EveryEvent (trace : List (Event × Result))
    (meets : List (Event × Result) → Event → Prop) : Prop :=
  ∀ early event result, early ++ [(event, result)] <+: trace → meets early event

theorem EveryEvent.nil {meets : List (Event × Result) → Event → Prop} : EveryEvent [] meets := by
  rintro early event result ⟨rest, empty⟩
  simp at empty

theorem everyEvent_concat {meets : List (Event × Result) → Event → Prop}
    {trace : List (Event × Result)} {event : Event} {result : Result} :
    EveryEvent (trace ++ [(event, result)]) meets ↔
      EveryEvent trace meets ∧ meets trace event := by
  constructor
  · intro all
    exact ⟨fun early event' result' within => all early event' result'
      (within.trans (List.prefix_append _ _)), all trace event result (List.prefix_refl _)⟩
  · rintro ⟨all, last⟩ early event' result' within
    rcases List.prefix_concat_iff.mp within with whole | earlier
    · obtain ⟨rfl, same⟩ := List.append_inj' whole rfl
      cases same
      exact last
    · exact all early event' result' earlier

end

end GlobalComponents.Library
