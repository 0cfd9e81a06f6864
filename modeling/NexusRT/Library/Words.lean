import Mathlib.Algebra.Ring.Nat

namespace Words

theorem toNat_widen_mul (x : UInt32) {c : UInt64} (hc : c.toNat ≤ 2 ^ 32) :
    (x.toUInt64 * c).toNat = x.toNat * c.toNat := by
  rw [UInt64.toNat_mul, UInt32.toNat_toUInt64]
  apply Nat.mod_eq_of_lt
  calc x.toNat * c.toNat ≤ x.toNat * 2 ^ 32 := Nat.mul_le_mul_left _ hc
    _ < 2 ^ 32 * 2 ^ 32 := Nat.mul_lt_mul_of_pos_right x.toNat_lt (by omega)

theorem toNat_min (x y : UInt64) : (min x y).toNat = min x.toNat y.toNat := by
  change (if x ≤ y then x else y).toNat = _
  split
  · next hle => exact (Nat.min_eq_left (UInt64.le_iff_toNat_le.mp hle)).symm
  · next hgt =>
    have hlt := UInt64.lt_iff_toNat_lt.mp (UInt64.not_le.mp hgt)
    exact (Nat.min_eq_right (Nat.le_of_lt hlt)).symm

section Limit

variable (x limit : UInt64)

def excess : UInt64 := if limit < x then x - limit else 0

def capped : UInt64 := if limit < x then x - (x - limit) else x

theorem toNat_excess : (excess x limit).toNat = x.toNat - limit.toNat := by
  unfold excess
  split
  · next hover => exact UInt64.toNat_sub_of_le _ _ (UInt64.le_of_lt hover)
  · next hwithin =>
    have hle := UInt64.le_iff_toNat_le.mp (UInt64.not_lt.mp hwithin)
    change 0 = _
    omega

theorem toNat_capped : (capped x limit).toNat = min x.toNat limit.toNat := by
  unfold capped
  split
  · next hover =>
    have hle := UInt64.le_of_lt hover
    have hlt := UInt64.lt_iff_toNat_lt.mp hover
    have hsub := UInt64.toNat_sub_of_le _ _ hle
    rw [UInt64.toNat_sub_of_le, hsub]
    · omega
    · rw [UInt64.le_iff_toNat_le, hsub]
      omega
  · next hwithin =>
    have hle := UInt64.le_iff_toNat_le.mp (UInt64.not_lt.mp hwithin)
    omega

theorem excess_add_capped : excess x limit + capped x limit = x := by
  unfold excess capped
  split
  · rw [UInt64.add_comm, UInt64.sub_add_cancel]
  · exact UInt64.zero_add x

end Limit

end Words
