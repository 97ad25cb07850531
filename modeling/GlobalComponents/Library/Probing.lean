import Mathlib.Data.Finset.Card
import Mathlib.Data.Fintype.EquivFin
import Mathlib.Data.Nat.ModEq
import Mathlib.Data.Nat.Prime.Basic
import Mathlib.Algebra.Ring.Parity
import Mathlib.Tactic.Ring

/-! Triangular probing of a table whose size is a power of two.

The probe sequence visits every bucket within the first `size` probes and does not come back to its
start before probe `2 * size - 1`.
-/

set_option autoImplicit false

namespace GlobalComponents.Library.Probing

def triangle (t : Nat) : Nat := t * (t + 1) / 2

def probe (size start t : Nat) : Nat := (start + triangle t) % size

theorem two_mul_triangle (t : Nat) : 2 * triangle t = t * (t + 1) :=
  Nat.mul_div_cancel' (Nat.even_mul_succ_self t).two_dvd

theorem triangle_succ (t : Nat) : triangle (t + 1) = triangle t + (t + 1) := by
  have := two_mul_triangle t
  have := two_mul_triangle (t + 1)
  have : (t + 1) * (t + 1 + 1) = t * (t + 1) + 2 * (t + 1) := by ring
  omega

theorem probe_zero (size start : Nat) : probe size start 0 = start % size := by
  simp [probe, triangle]

theorem probe_succ (size start t : Nat) :
    probe size start (t + 1) = (probe size start t + (t + 1)) % size := by
  rw [probe, probe, triangle_succ, ← Nat.add_assoc, Nat.mod_add_mod]

section
variable {k : Nat}

/-- A power of two that divides a product of numbers of different parity divides one of them. -/
theorem pow_dvd_or_pow_dvd {a b : Nat} (mixed : Odd (a + b)) (dvd : 2 ^ k ∣ a * b) :
    2 ^ k ∣ a ∨ 2 ^ k ∣ b := by
  rcases Nat.even_or_odd a with even | odd
  · have other : Odd b := (Nat.odd_add'.mp mixed).mpr even
    exact .inl ((Nat.Coprime.pow_left k (Nat.coprime_two_left.mpr other)).dvd_of_dvd_mul_right dvd)
  · exact .inr ((Nat.Coprime.pow_left k (Nat.coprime_two_left.mpr odd)).dvd_of_dvd_mul_left dvd)

theorem triangle_inj {a b : Nat} (first : a < 2 ^ k) (second : b < 2 ^ k)
    (same : triangle a ≡ triangle b [MOD 2 ^ k]) : a = b := by
  wlog order : b ≤ a generalizing a b
  · exact (this second first same.symm (Nat.le_of_not_le order)).symm
  obtain ⟨d, rfl⟩ := Nat.exists_eq_add_of_le order
  have dvd : 2 ^ k ∣ triangle (b + d) - triangle b :=
    (Nat.modEq_iff_dvd' (Nat.div_le_div_right (Nat.mul_le_mul order (by omega)))).mp same.symm
  have product : 2 * (triangle (b + d) - triangle b) = d * (2 * b + d + 1) := by
    rw [Nat.mul_sub, two_mul_triangle, two_mul_triangle]
    have : (b + d) * (b + d + 1) = d * (2 * b + d + 1) + b * (b + 1) := by ring
    omega
  have dvd' : 2 ^ (k + 1) ∣ d * (2 * b + d + 1) := by
    rw [← product, Nat.pow_succ']
    exact Nat.mul_dvd_mul_left 2 dvd
  have mixed : Odd (d + (2 * b + d + 1)) := ⟨d + b, by ring⟩
  have double : 2 ^ (k + 1) = 2 * 2 ^ k := Nat.pow_succ'
  rcases pow_dvd_or_pow_dvd mixed dvd' with small | large
  · have := Nat.eq_zero_of_dvd_of_lt small (by omega)
    omega
  · have := Nat.le_of_dvd (by omega) large
    omega

theorem probe_inj (start : Nat) {a b : Nat} (first : a < 2 ^ k) (second : b < 2 ^ k)
    (same : probe (2 ^ k) start a = probe (2 ^ k) start b) : a = b :=
  triangle_inj first second (Nat.ModEq.add_left_cancel' start same)

/-- Every bucket is visited within the first `size` probes. -/
theorem probe_covers (start : Nat) {i : Nat} (bucket : i < 2 ^ k) :
    ∃ t < 2 ^ k, probe (2 ^ k) start t = i := by
  have bound : ∀ t, probe (2 ^ k) start t < 2 ^ k := fun t => Nat.mod_lt _ (Nat.two_pow_pos k)
  let visit : Fin (2 ^ k) → Fin (2 ^ k) := fun t => ⟨probe (2 ^ k) start t, bound t⟩
  have injective : Function.Injective visit := fun a b same =>
    Fin.ext (probe_inj start a.isLt b.isLt (congrArg Fin.val same))
  obtain ⟨t, reached⟩ := Finite.surjective_of_injective injective ⟨i, bucket⟩
  exact ⟨t, t.isLt, congrArg Fin.val reached⟩

theorem probe_ne_start (start : Nat) {t : Nat} (positive : 0 < t) (early : t + 1 < 2 * 2 ^ k) :
    probe (2 ^ k) start t ≠ probe (2 ^ k) start 0 := by
  intro same
  have zero : triangle t ≡ 0 [MOD 2 ^ k] := Nat.ModEq.add_left_cancel' start same
  have dvd : 2 ^ (k + 1) ∣ t * (t + 1) := by
    rw [← two_mul_triangle, Nat.pow_succ']
    exact Nat.mul_dvd_mul_left 2 (Nat.modEq_zero_iff_dvd.mp zero)
  have double : 2 ^ (k + 1) = 2 * 2 ^ k := Nat.pow_succ'
  rcases pow_dvd_or_pow_dvd (⟨t, by ring⟩ : Odd (t + (t + 1))) dvd with first | second
  · have := Nat.le_of_dvd positive first
    omega
  · have := Nat.le_of_dvd (Nat.succ_pos t) second
    omega

/-- After `2 * size - 1` steps the search is back at its start. -/
theorem probe_return (start : Nat) : probe (2 ^ k) start (2 * 2 ^ k - 1) = probe (2 ^ k) start 0 := by
  have positive := Nat.two_pow_pos k
  have round : triangle (2 * 2 ^ k - 1) = 2 ^ k * (2 * 2 ^ k - 1) := by
    have next : 2 * 2 ^ k - 1 + 1 = 2 * 2 ^ k := by omega
    rw [triangle, next, Nat.mul_left_comm, Nat.mul_div_cancel_left _ Nat.two_pos, Nat.mul_comm]
  rw [probe, round, Nat.add_mul_mod_self_left, probe_zero]

end

/-- A search from `start` over occupied buckets comes to bucket `i`. -/
def Reaches (size : Nat) (occupied : Nat → Prop) (start i : Nat) : Prop :=
  ∃ t, probe size start t = i ∧ ∀ j < t, occupied (probe size start j)

theorem Reaches.mono {size start i : Nat} {occupied more : Nat → Prop}
    (reaches : Reaches size occupied start i) (sub : ∀ i, occupied i → more i) :
    Reaches size more start i := by
  obtain ⟨t, here, path⟩ := reaches
  exact ⟨t, here, fun j earlier => sub _ (path j earlier)⟩

theorem Reaches.first {k start i : Nat} {occupied : Nat → Prop}
    (reaches : Reaches (2 ^ k) occupied start i) :
    ∃ t < 2 ^ k, probe (2 ^ k) start t = i ∧
      ∀ j < t, occupied (probe (2 ^ k) start j) ∧ probe (2 ^ k) start j ≠ i := by
  classical
  obtain ⟨t, here, path⟩ := reaches
  have exist : ∃ t, probe (2 ^ k) start t = i := ⟨t, here⟩
  have bucket : i < 2 ^ k := here ▸ Nat.mod_lt _ (Nat.two_pow_pos k)
  obtain ⟨early, small, reached⟩ := probe_covers start bucket
  have least := Nat.find_min' exist here
  refine ⟨Nat.find exist, (Nat.find_min' exist reached).trans_lt small, Nat.find_spec exist,
    fun j earlier => ⟨path j (earlier.trans_le least), Nat.find_min exist earlier⟩⟩

/-- While a bucket is free the search finds one. -/
theorem exists_first_free {k : Nat} (start : Nat) {occupied : Nat → Prop} {i : Nat}
    (bucket : i < 2 ^ k) (free : ¬occupied i) :
    ∃ t < 2 ^ k, ¬occupied (probe (2 ^ k) start t) ∧
      ∀ j < t, occupied (probe (2 ^ k) start j) := by
  classical
  obtain ⟨t, small, rfl⟩ := probe_covers start bucket
  have exist : ∃ t, ¬occupied (probe (2 ^ k) start t) := ⟨t, free⟩
  refine ⟨Nat.find exist, (Nat.find_min' exist free).trans_lt small, Nat.find_spec exist,
    fun j earlier => ?_⟩
  exact not_not.mp (Nat.find_min exist earlier)

end GlobalComponents.Library.Probing
