import Mathlib.Algebra.BigOperators.Group.Finset.Basic
import Mathlib.Algebra.Order.BigOperators.Group.Finset

/-! Arrays of optional entries and the multiset of what they hold. -/

set_option autoImplicit false

namespace GlobalComponents.Library.Slots

variable {α : Type}

def contents (slots : Nat → Option α) (size : Nat) : Multiset α :=
  ∑ i ∈ Finset.range size, ((slots i).toList : Multiset α)

theorem mem_contents {slots : Nat → Option α} {size : Nat} {entry : α} :
    entry ∈ contents slots size ↔ ∃ i < size, slots i = some entry := by
  simp [contents, Multiset.mem_sum]

theorem contents_congr {slots other : Nat → Option α} {size : Nat}
    (same : ∀ i < size, slots i = other i) : contents slots size = contents other size := by
  apply Finset.sum_congr rfl
  intro i member
  rw [same i (Finset.mem_range.mp member)]

theorem contents_update (slots : Nat → Option α) {size i : Nat} (within : i < size)
    (new : Option α) :
    contents (Function.update slots i new) size + ((slots i).toList : Multiset α) =
      contents slots size + (new.toList : Multiset α) := by
  have member : i ∈ Finset.range size := Finset.mem_range.mpr within
  have others : ∑ j ∈ (Finset.range size).erase i,
      ((Function.update slots i new j).toList : Multiset α) =
      ∑ j ∈ (Finset.range size).erase i, ((slots j).toList : Multiset α) := by
    apply Finset.sum_congr rfl
    intro j other
    rw [Function.update_of_ne (Finset.ne_of_mem_erase other)]
  rw [contents, contents, ← Finset.add_sum_erase _ _ member, ← Finset.add_sum_erase _ _ member,
    others, Function.update_self]
  exact add_right_comm _ _ _ |>.trans (congrArg (· + _) (add_comm _ _)) |>.trans
    (add_right_comm _ _ _)

theorem contents_fill {slots : Nat → Option α} {size i : Nat} (within : i < size)
    (free : slots i = none) (entry : α) :
    contents (Function.update slots i (some entry)) size = contents slots size + {entry} := by
  have := contents_update slots within (some entry)
  rw [free] at this
  simpa using this

theorem contents_clear {slots : Nat → Option α} {size i : Nat} {entry : α} (within : i < size)
    (held : slots i = some entry) :
    contents (Function.update slots i none) size + {entry} = contents slots size := by
  have := contents_update slots within none
  rw [held] at this
  simpa using this

theorem contents_extend {slots : Nat → Option α} {size larger : Nat} (order : size ≤ larger)
    (free : ∀ i, size ≤ i → slots i = none) : contents slots larger = contents slots size := by
  apply (Finset.sum_subset (Finset.range_mono order) _).symm
  intro i _ outside
  rw [free i (by simpa using outside)]
  rfl

theorem map_contents {β : Type} (f : α → β) (slots : Nat → Option α) (size : Nat) :
    (contents slots size).map f = contents (fun i => (slots i).map f) size := by
  rw [contents, ← Multiset.coe_mapAddMonoidHom, map_sum]
  apply Finset.sum_congr rfl
  intro i _
  cases here : slots i <;> simp [here]

theorem card_contents_le (slots : Nat → Option α) (size : Nat) :
    (contents slots size).card ≤ size := by
  rw [contents, Multiset.card_sum]
  calc
    _ ≤ ∑ _i ∈ Finset.range size, 1 :=
      Finset.sum_le_sum fun i _ => by cases slots i <;> simp
    _ = size := by simp

theorem le_card_contents {slots : Nat → Option α} {size full : Nat} (order : full ≤ size)
    (taken : ∀ i < full, slots i ≠ none) : full ≤ (contents slots size).card := by
  rw [contents, Multiset.card_sum]
  calc
    full = ∑ _i ∈ Finset.range full, 1 := by simp
    _ ≤ ∑ i ∈ Finset.range full, Multiset.card ((slots i).toList : Multiset α) := by
      apply Finset.sum_le_sum
      intro i member
      have := taken i (Finset.mem_range.mp member)
      cases entry : slots i with
      | none => exact absurd entry this
      | some => simp
    _ ≤ _ := Finset.sum_le_sum_of_subset (Finset.range_mono order)

theorem card_contents_mono {β : Type} {slots : Nat → Option α} {other : Nat → Option β} {size : Nat}
    (sub : ∀ i < size, slots i ≠ none → other i ≠ none) :
    (contents slots size).card ≤ (contents other size).card := by
  rw [contents, contents, Multiset.card_sum, Multiset.card_sum]
  apply Finset.sum_le_sum
  intro i member
  have taken := sub i (Finset.mem_range.mp member)
  cases here : slots i with
  | none => exact Nat.zero_le _
  | some entry =>
    obtain ⟨other, there⟩ := Option.ne_none_iff_exists'.mp (taken (by simp [here]))
    simp [there]

/-- Entries with different keys lie in different slots. -/
theorem slot_unique {K : Type} {key : α → K} {slots : Nat → Option α} {size i j : Nat}
    {first second : α} (distinct : ((contents slots size).map key).Nodup) (left : i < size)
    (right : j < size) (here : slots i = some first) (there : slots j = some second)
    (same : key first = key second) : i = j := by
  by_contra different
  rw [← contents_clear left here, Multiset.map_add, Multiset.map_singleton,
    Multiset.nodup_add] at distinct
  have other : second ∈ contents (Function.update slots i none) size := by
    apply mem_contents.mpr
    exact ⟨j, right, by rwa [Function.update_of_ne (Ne.symm different)]⟩
  apply Multiset.disjoint_left.mp distinct.2.2 (Multiset.mem_map_of_mem key other)
  exact Multiset.mem_singleton.mpr same.symm

end GlobalComponents.Library.Slots
