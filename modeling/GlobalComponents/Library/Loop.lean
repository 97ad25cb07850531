import Mathlib.Init

/-! Loops without fuel.

One pass through the body goes on with a new state or leaves the loop. The body is a relation, so it
may itself contain a loop, and a pass that reaches outside an array has no outcome. A loop ends when
finitely many passes lead out of it.
-/

set_option autoImplicit false

namespace GlobalComponents.Library

inductive Pass (State Result : Type) where
  | again (state : State)
  | done (result : Result)

namespace Loop

variable {State Result : Type} {body : State → Pass State Result → Prop}

inductive Ends (body : State → Pass State Result → Prop) : State → Result → Prop where
  | done {state : State} {result : Result} : body state (.done result) → Ends body state result
  | again {state next : State} {result : Result} : body state (.again next) →
      Ends body next result → Ends body state result

theorem Ends.unique (functional : ∀ state first second, body state first → body state second →
    first = second) {state : State} {first second : Result} (left : Ends body state first)
    (right : Ends body state second) : first = second := by
  induction left with
  | done leaves =>
    cases right with
    | done other => exact Pass.done.inj (functional _ _ _ leaves other)
    | again other => cases functional _ _ _ leaves other
  | again goes _ ih =>
    cases right with
    | done other => cases functional _ _ _ goes other
    | again other rest =>
      cases functional _ _ _ goes other
      exact ih rest

/-- The rule of the variant: each pass leaves the loop with `post`, or keeps the invariant and makes
the variant smaller. -/
theorem ends {post : Result → Prop} (Inv : State → Prop) (variant : State → Nat)
    (pass : ∀ state, Inv state → (∃ result, body state (.done result) ∧ post result) ∨
      ∃ next, body state (.again next) ∧ Inv next ∧ variant next < variant state)
    {state : State} (initially : Inv state) : ∃ result, Ends body state result ∧ post result := by
  generalize bound : variant state = left
  induction left using Nat.strongRecOn generalizing state with
  | ind left ih =>
    subst bound
    rcases pass state initially with ⟨result, leaves, final⟩ | ⟨next, goes, kept, smaller⟩
    · exact ⟨result, .done leaves, final⟩
    · obtain ⟨result, rest, final⟩ := ih (variant next) smaller kept rfl
      exact ⟨result, .again goes rest, final⟩

/-- A loop that counts to `last`: each pass takes one element of the range. -/
theorem ends_range {State : Type} {body : Nat × State → Pass (Nat × State) State → Prop} {last : Nat}
    {step : State → Nat → State} (Inv : Nat → State → Prop)
    (leaves : ∀ state, body (last, state) (.done state))
    (goes : ∀ j state, j < last → Inv j state →
      body (j, state) (.again (j + 1, step state j)) ∧ Inv (j + 1) (step state j))
    {state : State} (initially : Inv 0 state) :
    Ends body (0, state) ((List.range last).foldl step state) := by
  -- by induction on the elements that are left
  have rest : ∀ left j state, j + left = last → Inv j state →
      Ends body (j, state) ((List.range' j left).foldl step state) := by
    intro left
    induction left with
    | zero =>
      intro j state whole _
      obtain rfl : j = last := whole
      exact .done (leaves state)
    | succ left ih =>
      intro j state whole holds
      obtain ⟨goes, kept⟩ := goes j state (by omega) holds
      exact .again goes (ih (j + 1) _ (by omega) kept)
  rw [List.range_eq_range']
  exact rest last 0 state (Nat.zero_add last) initially

end Loop

end GlobalComponents.Library
