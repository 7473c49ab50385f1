import Mathlib.Tactic.Ring
import Mathlib.Data.Int.ModEq

/-!
# Conversions between C integer types

On the targets considered here `int` has 32 bits and `size_t` and `ptrdiff_t`
have 64, and a conversion that does not fit keeps the low bits. `castInt` is the
conversion of an integer value to `int` and `castSize` the one to `size_t`. A
count that passes through `int` is unchanged exactly when it is below `2 ^ 31`.
-/

namespace CLib

/-- Conversion to `int`: the low 32 bits, read as a signed number. -/
def castInt (n : ℤ) : ℤ := n.bmod (2 ^ 32)

/-- Conversion to `size_t`: the low 64 bits, read as an unsigned number. -/
def castSize (n : ℤ) : ℕ := (n % 2 ^ 64).toNat

theorem castInt_of_bounds {n : ℤ} (hlo : -2 ^ 31 ≤ n) (hhi : n < 2 ^ 31) :
    castInt n = n := by
  unfold castInt
  exact Int.bmod_eq_of_le (by omega) (by omega)

theorem castInt_natCast_of_lt {n : ℕ} (h : n < 2 ^ 31) : castInt (n : ℤ) = n :=
  castInt_of_bounds (by omega) (by omega)

theorem castInt_lt (n : ℤ) : castInt n < 2 ^ 31 := by
  unfold castInt
  have h := Int.bmod_lt (x := n) (m := 2 ^ 32) (by norm_num)
  omega

theorem le_castInt (n : ℤ) : -2 ^ 31 ≤ castInt n := by
  unfold castInt
  have h := Int.le_bmod (x := n) (m := 2 ^ 32) (by norm_num)
  omega

theorem toNat_castInt_lt (n : ℤ) : (castInt n).toNat < 2 ^ 31 := by
  have h := castInt_lt n
  omega

/-- A count survives the conversion to `int` exactly when it is below `2 ^ 31`. -/
theorem toNat_castInt_natCast_eq_iff (n : ℕ) :
    (castInt (n : ℤ)).toNat = n ↔ n < 2 ^ 31 := by
  constructor
  · intro h
    have hlt := toNat_castInt_lt (n : ℤ)
    omega
  · intro h
    rw [castInt_natCast_of_lt h, Int.toNat_natCast]

theorem castSize_of_nonneg {n : ℤ} (hlo : 0 ≤ n) (hhi : n < 2 ^ 64) :
    (castSize n : ℤ) = n := by
  unfold castSize
  rw [Int.emod_eq_of_lt hlo hhi]
  exact Int.toNat_of_nonneg hlo

theorem castSize_of_neg {n : ℤ} (hlo : -2 ^ 63 ≤ n) (hneg : n < 0) :
    2 ^ 63 ≤ castSize n := by
  unfold castSize
  omega

end CLib
