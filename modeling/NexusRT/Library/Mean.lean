import Mathlib.Algebra.Order.BigOperators.Group.List
import Mathlib.Algebra.Group.Action.Defs
import Mathlib.Algebra.Order.Group.Nat
import Mathlib.Tactic.Ring

namespace Mean

variable {l : List ℕ} {k m e : ℕ}

theorem units_pos (hk : 0 < k) (hl : l ≠ []) : 0 < l.length * k :=
  Nat.mul_pos (List.length_pos_of_ne_nil hl) hk

theorem div_le (hk : 0 < k) (hl : l ≠ []) (h : ∀ d ∈ l, m ≤ d) (e : ℕ) :
    m / k ≤ (l.sum + e) / (l.length * k) := by
  rw [Nat.le_div_iff_mul_le (units_pos hk hl)]
  have hsum := List.card_nsmul_le_sum l m h
  rw [smul_eq_mul] at hsum
  calc m / k * (l.length * k) = l.length * (m / k * k) := by ring
    _ ≤ l.length * m := Nat.mul_le_mul_left _ (Nat.div_mul_le_self m k)
    _ ≤ l.sum + e := by omega

theorem le_div_iff (hk : 0 < k) (hl : l ≠ []) :
    (l.sum + e) / (l.length * k) ≤ m / k ↔ l.sum + e < (m / k + 1) * (l.length * k) := by
  rw [← Nat.lt_add_one_iff, Nat.div_lt_iff_lt_mul (units_pos hk hl)]

theorem sum_lt (hk : 0 < k) (hl : l ≠ []) (h : ∀ d ∈ l, d ≤ m) :
    l.sum < (m / k + 1) * (l.length * k) := by
  have hsum := List.sum_le_card_nsmul l m h
  rw [smul_eq_mul] at hsum
  have hlt : m < (m / k + 1) * k := by
    rw [Nat.mul_comm]
    exact Nat.lt_mul_div_succ m hk
  calc l.sum ≤ l.length * m := hsum
    _ < l.length * ((m / k + 1) * k) := Nat.mul_lt_mul_of_pos_left hlt (List.length_pos_of_ne_nil hl)
    _ = (m / k + 1) * (l.length * k) := by ring

end Mean
