import Mathlib.Init

/-! Computations that may stop early: inversion of their composition, and pre- and postconditions.

`Ends tolerated post` says of a computation that it returns with the postcondition or stops for a
tolerated reason. With nothing tolerated this is total correctness, with everything partial.
-/

set_option autoImplicit false

namespace GlobalComponents.Library

variable {ε α β : Type}

theorem bind_ok {first : Except ε α} {rest : α → Except ε β} {result : β} :
    (first >>= rest) = .ok result ↔ ∃ value, first = .ok value ∧ rest value = .ok result := by
  cases first with
  | error fault => exact iff_of_false (fun same => by cases same) (by simp)
  | ok value => simp [bind, Except.bind]

theorem pair_ok {a c : α} {b d : β} :
    (pure (a, b) : Except ε (α × β)) = .ok (c, d) ↔ a = c ∧ b = d :=
  ⟨fun same => Prod.mk.inj (Except.ok.inj same), fun ⟨left, right⟩ => by rw [left, right]; rfl⟩

def Ends (tolerated : ε → Prop) (post : α → Prop) : Except ε α → Prop
  | .ok value => post value
  | .error reason => tolerated reason

namespace Ends

variable {tolerated : ε → Prop} {post : α → Prop} {post' : β → Prop}

@[simp] theorem ok_iff {value : α} : Ends tolerated post (.ok value) ↔ post value := Iff.rfl

@[simp] theorem pure_iff {value : α} : Ends tolerated post (pure value) ↔ post value := Iff.rfl

@[simp] theorem error_iff {reason : ε} :
    Ends tolerated post (.error reason) ↔ tolerated reason := Iff.rfl

theorem any (computation : Except ε α) : Ends (fun _ => True) (fun _ => True) computation := by
  cases computation with
  | ok value => exact True.intro
  | error reason => exact True.intro

theorem returns {weaker : ε → Prop} {computation : Except ε α}
    (ends : Ends tolerated post computation) (implies : ∀ reason, tolerated reason → weaker reason)
    {known : α → Prop} (returned : ∀ value, computation = .ok value → known value) :
    Ends weaker known computation := by
  cases computation with
  | ok value => exact returned value rfl
  | error reason => exact implies reason ends

theorem of_ok {computation : Except ε α} {value : α} (ends : Ends tolerated post computation)
    (done : computation = .ok value) : post value := by
  rw [done] at ends
  exact ends

/-- With nothing tolerated there is a result. -/
theorem total {computation : Except ε α} (ends : Ends (fun _ => False) post computation) :
    ∃ value, computation = .ok value ∧ post value := by
  cases computation with
  | ok value => exact ⟨value, rfl, ends⟩
  | error reason => exact False.elim ends

theorem mono {weaker : α → Prop} {computation : Except ε α}
    (ends : Ends tolerated post computation) (implies : ∀ value, post value → weaker value) :
    Ends tolerated weaker computation := by
  cases computation with
  | ok value => exact implies value ends
  | error reason => exact ends

theorem bind {first : Except ε α} {rest : α → Except ε β} (ends : Ends tolerated post first)
    (then' : ∀ value, post value → Ends tolerated post' (rest value)) :
    Ends tolerated post' (first >>= rest) := by
  cases first with
  | ok value => exact then' value ends
  | error reason => exact ends

/-- What each element of the list preserves, the whole list does. -/
theorem foldlM {Inv : β → Prop} {step : β → α → Except ε β} {list : List α} {state : β}
    (initially : Inv state)
    (preserved : ∀ state, Inv state → ∀ element ∈ list, Ends tolerated Inv (step state element)) :
    Ends tolerated Inv (list.foldlM step state) := by
  induction list generalizing state with
  | nil => exact initially
  | cons element rest ih =>
    rw [List.foldlM_cons]
    refine (preserved state initially element List.mem_cons_self).bind fun state holds => ?_
    exact ih holds fun state holds element member =>
      preserved state holds element (List.mem_cons_of_mem _ member)

end Ends

end GlobalComponents.Library
