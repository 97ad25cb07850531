import Mathlib.Data.List.Range
import Mathlib.Logic.Function.Basic

/-! Cyclic rings with a producer index `head` and a consumer index `tail`.

A ring of `size` slots holds at most `size - 1` entries: the indices are equal exactly when it is
empty, and one slot stays free. The queue of a ring is read from the consumer's end.
-/

set_option autoImplicit false

namespace GlobalComponents.Library.Ring

variable {α : Type} {size head tail : Nat}

/-- The number of slots from `tail` up to `head`. -/
def occupancy (size head tail : Nat) : Nat := (head + size - tail) % size

/-- The entries from `tail` up to `head`, the oldest first. -/
def queue (size : Nat) (slots : Nat → α) (head tail : Nat) : List α :=
  (List.range (occupancy size head tail)).map fun k => slots ((tail + k) % size)

/-- Reduction of an index that passes the end of the ring at most once. -/
theorem mod_wrap {index : Nat} (once : index < 2 * size) :
    index % size = if index < size then index else index - size := by
  split
  · exact Nat.mod_eq_of_lt ‹_›
  · rw [Nat.mod_eq_sub_mod (by omega), Nat.mod_eq_of_lt (by omega)]

theorem occupancy_eq (headBound : head < size) (tailBound : tail < size) :
    occupancy size head tail = if tail ≤ head then head - tail else head + size - tail := by
  unfold occupancy
  rw [mod_wrap (by omega)]
  split <;> split <;> omega

theorem occupancy_lt (headBound : head < size) : occupancy size head tail < size :=
  Nat.mod_lt _ (by omega)

theorem succ_mod_lt (headBound : head < size) : (head + 1) % size < size :=
  Nat.mod_lt _ (by omega)

@[simp] theorem queue_length (slots : Nat → α) :
    (queue size slots head tail).length = occupancy size head tail := by
  simp [queue]

theorem queue_eq_nil_iff (headBound : head < size) (tailBound : tail < size) (slots : Nat → α) :
    queue size slots head tail = [] ↔ head = tail := by
  rw [← List.length_eq_zero_iff, queue_length, occupancy_eq headBound tailBound]
  split <;> omega

theorem full_iff (headBound : head < size) (tailBound : tail < size) :
    (head + 1) % size = tail ↔ occupancy size head tail = size - 1 := by
  rw [occupancy_eq headBound tailBound, mod_wrap (by omega)]
  split <;> split <;> omega

theorem occupancy_succ_head (headBound : head < size) (tailBound : tail < size)
    (room : (head + 1) % size ≠ tail) :
    occupancy size ((head + 1) % size) tail = occupancy size head tail + 1 := by
  rw [occupancy_eq headBound tailBound, occupancy_eq (succ_mod_lt headBound) tailBound]
  rw [mod_wrap (by omega)] at room ⊢
  split at room <;> split <;> split <;> split <;> omega

theorem occupancy_succ_tail (headBound : head < size) (tailBound : tail < size)
    (some : head ≠ tail) :
    occupancy size head tail = occupancy size head ((tail + 1) % size) + 1 := by
  rw [occupancy_eq headBound tailBound, occupancy_eq headBound (succ_mod_lt tailBound)]
  rw [mod_wrap (by omega)]
  split <;> split <;> split <;> omega

theorem tail_add_occupancy (headBound : head < size) (tailBound : tail < size) :
    (tail + occupancy size head tail) % size = head := by
  rw [occupancy_eq headBound tailBound]
  split
  · rw [mod_wrap (by omega)]
    split <;> omega
  · rw [mod_wrap (by omega)]
    split <;> omega

theorem queued_slot_ne_head (headBound : head < size) (tailBound : tail < size) {k : Nat}
    (queued : k < occupancy size head tail) : (tail + k) % size ≠ head := by
  rw [occupancy_eq headBound tailBound] at queued
  rw [mod_wrap (by split at queued <;> omega)]
  split at queued <;> split <;> omega

theorem queue_update_head (headBound : head < size) (tailBound : tail < size) (slots : Nat → α)
    (entry : α) :
    queue size (Function.update slots head entry) head tail = queue size slots head tail := by
  apply List.map_congr_left
  intro k member
  exact Function.update_of_ne
    (queued_slot_ne_head headBound tailBound (List.mem_range.mp member)) _ _

theorem queue_succ_head (headBound : head < size) (tailBound : tail < size)
    (room : (head + 1) % size ≠ tail) (slots : Nat → α) :
    queue size slots ((head + 1) % size) tail = queue size slots head tail ++ [slots head] := by
  simp only [queue, occupancy_succ_head headBound tailBound room, List.range_succ, List.map_append,
    List.map_cons, List.map_nil, tail_add_occupancy headBound tailBound]

theorem queue_push (headBound : head < size) (tailBound : tail < size)
    (room : (head + 1) % size ≠ tail) (slots : Nat → α) (entry : α) :
    queue size (Function.update slots head entry) ((head + 1) % size) tail =
      queue size slots head tail ++ [entry] := by
  rw [queue_succ_head headBound tailBound room, queue_update_head headBound tailBound,
    Function.update_self]

theorem queue_pop (headBound : head < size) (tailBound : tail < size) (some : head ≠ tail)
    (slots : Nat → α) :
    queue size slots head tail = slots tail :: queue size slots head ((tail + 1) % size) := by
  simp only [queue, occupancy_succ_tail headBound tailBound some, List.range_succ_eq_map,
    List.map_cons, List.map_map, Nat.add_zero, Nat.mod_eq_of_lt tailBound]
  congr 1
  apply List.map_congr_left
  intro k _
  simp [Nat.add_assoc, Nat.add_comm 1 k]

end GlobalComponents.Library.Ring
