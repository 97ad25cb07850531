import Mathlib.Init

/-! Queues whose head is offered until it is taken.

A consumer that peeks sees the head, and removes it only if the offer succeeds. `serve` checks a
sequence of offers against the queue and returns what is left.
-/

set_option autoImplicit false

namespace GlobalComponents.Library.Offers

variable {α Outcome : Type}

def taken (takes : Outcome → Bool) (offers : List (α × Outcome)) : List α :=
  (offers.filter fun offer => takes offer.2).map Prod.fst

variable {takes : Outcome → Bool}

@[simp] theorem taken_nil : taken takes ([] : List (α × Outcome)) = [] := rfl

theorem taken_cons (offer : α × Outcome) (offers : List (α × Outcome)) :
    taken takes (offer :: offers) =
      if takes offer.2 then offer.1 :: taken takes offers else taken takes offers := by
  unfold taken
  rw [List.filter_cons]
  split <;> rfl

variable [DecidableEq α]

def serve (takes : Outcome → Bool) : List α → List (α × Outcome) → Option (List α)
  | queue, [] => some queue
  | [], _ :: _ => none
  | head :: queue, (offer, outcome) :: offers =>
    if offer = head then serve takes (if takes outcome then queue else head :: queue) offers else none

@[simp] theorem serve_nil (queue : List α) : serve takes queue [] = some queue := by
  cases queue <;> rfl

theorem serve_take {queue : List α} {head : α} {outcome : Outcome} {offers : List (α × Outcome)}
    (taken : takes outcome = true) :
    serve takes (head :: queue) ((head, outcome) :: offers) = serve takes queue offers := by
  rw [serve, if_pos rfl, if_pos taken]

theorem serve_refuse {queue : List α} {head : α} {outcome : Outcome}
    (refused : ¬takes outcome = true) :
    serve takes (head :: queue) [(head, outcome)] = some (head :: queue) := by
  rw [serve, if_pos rfl, if_neg refused, serve_nil]

theorem serve_append {queue left : List α} {first : List (α × Outcome)}
    (served : serve takes queue first = some left) (more : List α)
    (rest : List (α × Outcome)) :
    serve takes (queue ++ more) (first ++ rest) = serve takes (left ++ more) rest := by
  induction first generalizing queue with
  | nil =>
    rw [serve_nil] at served
    cases served
    rfl
  | cons offer first ih =>
    cases queue with
    | nil => cases served
    | cons head queue =>
      rw [serve] at served
      split at served
      · next same =>
        have later := ih served
        rw [List.cons_append, List.cons_append, serve, if_pos same]
        split <;> simp_all
      · cases served

/-- Everything that was taken and what is left are the queue: nothing is lost, taken twice or out of
order. -/
theorem taken_append {queue left : List α} {offers : List (α × Outcome)}
    (served : serve takes queue offers = some left) : taken takes offers ++ left = queue := by
  -- on the offers: the queue is what the earlier ones have left
  induction offers generalizing queue with
  | nil =>
    rw [serve_nil] at served
    cases served
    rfl
  | cons offer offers ih =>
    cases queue with
    | nil => cases served
    | cons head queue =>
      rw [serve] at served
      split at served
      · next same =>
        have rest := ih served
        rw [taken_cons]
        by_cases accepted : takes offer.2 = true
        · rw [if_pos accepted] at rest ⊢
          rw [List.cons_append, rest, same]
        · rw [if_neg accepted] at rest ⊢
          exact rest
      · cases served

end GlobalComponents.Library.Offers
