import GlobalComponents.Library.Refinement
import Mathlib.Data.Finset.Card

/-! What a dictionary is for: a finite map under insertion, search, removal and the removal of some
entry.

The implementation may refuse an insertion when there is no memory, and it chooses the entry that
`first` takes.
-/

set_option autoImplicit false

namespace GlobalComponents.Library.Dictionary

variable {K V : Type}

inductive Command (K V : Type) where
  | put (key : K) (val : V) (memory : Bool)
  | get (key : K)
  | del (key : K)
  | first
  | size
  deriving DecidableEq

inductive Response (K V : Type) where
  /-- Whether the key is new. -/
  | stored (fresh : Bool)
  | refused
  | found (val : Option V)
  /-- Whether there was an entry. -/
  | deleted (present : Bool)
  | taken (key : Option K)
  | counted (size : Nat)
  deriving DecidableEq

def Keys (map : K → Option V) (keys : Finset K) : Prop := ∀ key, key ∈ keys ↔ map key ≠ none

section
variable [DecidableEq K]

inductive Step : (K → Option V) → Command K V → Response K V → (K → Option V) → Prop where
  | stored {map : K → Option V} {key : K} {val : V} {memory : Bool} :
      Step map (.put key val memory) (.stored (map key).isNone) (Function.update map key (some val))
  | refused {map : K → Option V} {key : K} {val : V} :
      Step map (.put key val false) .refused map
  | found {map : K → Option V} {key : K} : Step map (.get key) (.found (map key)) map
  | deleted {map : K → Option V} {key : K} :
      Step map (.del key) (.deleted (map key).isSome) (Function.update map key none)
  | taken {map : K → Option V} {key : K} : map key ≠ none →
      Step map .first (.taken (some key)) (Function.update map key none)
  | empty {map : K → Option V} : (∀ key, map key = none) → Step map .first (.taken none) map
  | counted {map : K → Option V} {keys : Finset K} : Keys map keys →
      Step map .size (.counted keys.card) map

theorem Step.settled {map left right : K → Option V} {command : Command K V} {answer : Response K V}
    (first : Step map command answer left) (second : Step map command answer right) :
    left = right := by
  generalize told : answer = other at second
  cases first with
  | stored => cases second <;> [rfl; cases told]
  | refused => cases second <;> [cases told; rfl]
  | found => cases second; rfl
  | deleted => cases second; rfl
  | taken => cases second <;> cases told; rfl
  | empty => cases second <;> [cases told; rfl]
  | counted => cases second; rfl

def dictionary : Spec (K → Option V) (Command K V) (Response K V) where
  step := Step

end

end GlobalComponents.Library.Dictionary
