import Mathlib.Logic.Function.Basic

/-! Windows of a flat memory: the `n` cells from an address on, as a list.

A buffer that grows at its end and shrinks at its front is such a window. Removing the front copies
the rest down cell by cell, in ascending order. A copy to an address is the window there afterwards.
-/

set_option autoImplicit false

namespace GlobalComponents.Library.Window

variable {α : Type}

def window (mem : Nat → α) (base n : Nat) : List α := (List.range n).map fun i => mem (base + i)

@[simp] theorem window_length (mem : Nat → α) (base n : Nat) : (window mem base n).length = n := by
  simp [window]

@[simp] theorem window_zero (mem : Nat → α) (base : Nat) : window mem base 0 = [] := rfl

theorem window_getElem? (mem : Nat → α) (base n i : Nat) :
    (window mem base n)[i]? = if i < n then some (mem (base + i)) else none := by
  by_cases inside : i < n
  · simp [window, inside]
  · simp [window, inside]

theorem window_congr {mem mem' : Nat → α} {base n : Nat}
    (same : ∀ i < n, mem' (base + i) = mem (base + i)) : window mem' base n = window mem base n :=
  List.map_congr_left fun i member => same i (List.mem_range.mp member)

theorem window_succ (mem : Nat → α) (base n : Nat) :
    window mem base (n + 1) = window mem base n ++ [mem (base + n)] := by
  simp [window, List.range_succ]

theorem window_add (mem : Nat → α) (base m n : Nat) :
    window mem base (m + n) = window mem base m ++ window mem (base + m) n := by
  induction n with
  | zero => simp
  | succ n ih => rw [← Nat.add_assoc, window_succ, ih, window_succ, List.append_assoc, Nat.add_assoc]

theorem window_take (mem : Nat → α) (base : Nat) {m n : Nat} (within : m ≤ n) :
    (window mem base n).take m = window mem base m := by
  obtain ⟨rest, rfl⟩ := Nat.exists_eq_add_of_le within
  rw [window_add, List.take_left' (window_length mem base m)]

theorem window_drop (mem : Nat → α) (base m n : Nat) :
    (window mem base (m + n)).drop m = window mem (base + m) n := by
  rw [window_add, List.drop_left' (window_length mem base m)]

/-- A store right behind the window appends to it. -/
theorem window_push (mem : Nat → α) (base n : Nat) (cell : α) :
    window (Function.update mem (base + n) cell) base (n + 1) = window mem base n ++ [cell] := by
  rw [window_succ, Function.update_self]
  congr 1
  apply window_congr
  intro i inside
  exact Function.update_of_ne (by omega) _ _

theorem window_update_of_outside {mem : Nat → α} {base n address : Nat} (cell : α)
    (outside : address < base ∨ base + n ≤ address) :
    window (Function.update mem address cell) base n = window mem base n := by
  apply window_congr
  intro i inside
  exact Function.update_of_ne (by omega) _ _

/-- `for (j = 0; j < n; j++) buf[j] = buf[j + len];` -/
def moveDown (mem : Nat → α) (base len n : Nat) : Nat → α :=
  (List.range n).foldl
    (fun mem j => Function.update mem (base + j) (mem (base + j + len))) mem

/-- Each cell is read before anything is stored there. -/
theorem moveDown_apply (mem : Nat → α) (base len n address : Nat) :
    moveDown mem base len n address =
      if base ≤ address ∧ address < base + n then mem (address + len) else mem address := by
  induction n generalizing address with
  | zero =>
    have outside : ¬(base ≤ address ∧ address < base + 0) := by omega
    simp only [moveDown, List.range_zero, List.foldl_nil, if_neg outside]
  | succ n ih =>
    have step : moveDown mem base len (n + 1) = Function.update (moveDown mem base len n) (base + n)
        (moveDown mem base len n (base + n + len)) := by
      simp [moveDown, List.range_succ]
    rw [step]
    rcases eq_or_ne address (base + n) with rfl | other
    · have source : ¬(base ≤ base + n + len ∧ base + n + len < base + n) := by omega
      rw [Function.update_self, ih, if_neg source, if_pos (by omega)]
    · rw [Function.update_of_ne other, ih]
      exact if_congr (by omega) rfl rfl

theorem window_moveDown (mem : Nat → α) (base len n : Nat) :
    window (moveDown mem base len n) base n = (window mem base (len + n)).drop len := by
  rw [window_drop]
  apply List.map_congr_left
  intro i member
  have inside := List.mem_range.mp member
  rw [moveDown_apply, if_pos (by omega), Nat.add_right_comm]

theorem window_moveDown_of_outside (mem : Nat → α) (len : Nat) {base n base' n' : Nat}
    (apart : base + n ≤ base' ∨ base' + n' ≤ base) :
    window (moveDown mem base len n) base' n' = window mem base' n' := by
  apply window_congr
  intro i inside
  rw [moveDown_apply, if_neg (by omega)]

/-- Copy the cells to the address `base` and behind it. -/
def store (mem : Nat → α) (base : Nat) (cells : List α) : Nat → α := fun address =>
  if base ≤ address then (cells[address - base]?).getD (mem address) else mem address

@[simp] theorem store_nil (mem : Nat → α) (base : Nat) : store mem base [] = mem := by
  funext address
  simp [store]

theorem store_of_outside (mem : Nat → α) {base address : Nat} {cells : List α}
    (outside : address < base ∨ base + cells.length ≤ address) :
    store mem base cells address = mem address := by
  unfold store
  split
  · rw [List.getElem?_eq_none (by omega), Option.getD_none]
  · rfl

theorem store_append (mem : Nat → α) (base : Nat) (first rest : List α) :
    store mem base (first ++ rest) = store (store mem base first) (base + first.length) rest := by
  funext address
  by_cases early : address < base + first.length
  · rw [store_of_outside _ (.inl early)]
    unfold store
    split
    · rw [List.getElem?_append_left (by omega)]
    · rfl
  · unfold store
    rw [if_pos (by omega), if_pos (by omega), List.getElem?_append_right (by omega), if_pos (by omega),
      List.getElem?_eq_none (l := first) (by omega), Option.getD_none, Nat.sub_sub]

theorem window_store (mem : Nat → α) (base : Nat) (cells : List α) :
    window (store mem base cells) base cells.length = cells := by
  apply List.ext_getElem?
  intro i
  rw [window_getElem?]
  by_cases inside : i < cells.length
  · simp [store, inside]
  · rw [if_neg inside, List.getElem?_eq_none (by omega)]

theorem store_apply (mem : Nat → α) (base i : Nat) (cells : List α) :
    store mem base cells (base + i) = (cells[i]?).getD (mem (base + i)) := by
  simp [store]

/-- Past the `n` cells that a copy was to fill, nothing changes exactly when its excess is already
there. -/
theorem store_beyond_iff (mem : Nat → α) (base n : Nat) (cells : List α) :
    (∀ i, n ≤ i → store mem base cells (base + i) = mem (base + i)) ↔
      cells.drop n = window mem (base + n) (cells.length - n) := by
  constructor
  · intro unchanged
    apply List.ext_getElem?
    intro i
    have cell := unchanged (n + i) (Nat.le_add_right n i)
    rw [store_apply] at cell
    rw [List.getElem?_drop, window_getElem?]
    by_cases inside : n + i < cells.length
    · rw [List.getElem?_eq_getElem inside, Option.getD_some] at cell
      rw [List.getElem?_eq_getElem inside, if_pos (by omega), cell, Nat.add_assoc]
    · rw [List.getElem?_eq_none (by omega), if_neg (by omega)]
  · intro excess i beyond
    obtain ⟨i, rfl⟩ := Nat.exists_eq_add_of_le beyond
    rw [store_apply, ← List.getElem?_drop, excess, window_getElem?, ← Nat.add_assoc]
    split
    · rfl
    · rfl

end GlobalComponents.Library.Window
