import Mathlib
import Stencil.Number.Double

/-!
# What numbers are worth

The value of a finite number is a rational, and `Double.IsInt` says that it is an integer. Reading a
number as an integer gives that integer (`toInt?_eq_some_iff`), and as a 64-bit integer if it is in
range (`toInt64?_eq_some_iff`).

The value is given by the bits: a significand times a power of two, with the sign in front. A number
is an integer if the power of two leaves no fraction, and there is one integer at most that it is.
NaN and the infinities have no value, and are read as no integer.
-/

namespace Stencil.Double

/-- What a finite number is worth. -/
def value (x : Double) : ℚ :=
  (if x.isNegative then -1 else 1) * (Layout.double.units x.magnitude / 2 ^ Layout.double.scale)

/-- The number is finite and worth the integer. -/
def IsInt (x : Double) (n : Int) : Prop := x.isFinite = true ∧ x.value = n

theorem two_pow_eq_cast (k : Nat) : (2 : ℚ) ^ k = (Nat.pow 2 k : Nat) := (Nat.cast_pow 2 k).symm

/-- A quotient of naturals that is a natural leaves no remainder. -/
theorem cast_div_eq_iff {u one : Nat} (hone : 0 < one) (k : Nat) :
    (u : ℚ) / one = k ↔ u % one = 0 ∧ u / one = k := by
  rw [div_eq_iff (by positivity)]
  constructor
  · intro h
    have h : u = k * one := by exact_mod_cast h
    rw [h]
    exact ⟨Nat.mul_mod_left _ _, Nat.mul_div_cancel _ hone⟩
  · rintro ⟨hmod, rfl⟩
    exact_mod_cast (Nat.div_mul_cancel (Nat.dvd_of_mod_eq_zero hmod)).symm

/-- The same up to a sign. -/
theorem signed_div_eq_iff {u one : Nat} (hone : 0 < one) (negative : Bool) (n : Int) :
    (if negative then -1 else 1) * ((u : ℚ) / one) = n
      ↔ u % one = 0 ∧ (if negative then -((u / one : Nat) : Int) else (u / one : Nat)) = n := by
  have hnonneg : (0 : ℚ) ≤ (u : ℚ) / one := by positivity
  -- the absolute value is a natural number, whatever the sign
  have hnat : ∀ m : Int, (u : ℚ) / one = m ↔ u % one = 0 ∧ ((u / one : Nat) : Int) = m := by
    intro m
    constructor
    · intro h
      have hm : 0 ≤ m := by rw [h] at hnonneg; exact_mod_cast hnonneg
      obtain ⟨k, rfl⟩ := Int.eq_ofNat_of_zero_le hm
      obtain ⟨hmod, hdiv⟩ := (cast_div_eq_iff hone k).mp (by exact_mod_cast h)
      exact ⟨hmod, by rw [hdiv]⟩
    · rintro ⟨hmod, rfl⟩
      exact_mod_cast (cast_div_eq_iff hone _).mpr ⟨hmod, rfl⟩
  cases negative with
  | false => simpa using hnat n
  | true =>
    have h := hnat (-n)
    rw [Int.cast_neg] at h
    simp only [if_true, neg_one_mul]
    rw [neg_eq_iff_eq_neg, h, neg_eq_iff_eq_neg]

/-- **Reading a number as an integer** gives the integer that it is worth. -/
theorem toInt?_eq_some_iff (x : Double) (n : Int) : x.toInt? = some n ↔ x.IsInt n := by
  have hpos : ∀ k, 0 < Nat.pow 2 k := Nat.two_pow_pos
  have hpos := hpos Layout.double.scale
  unfold toInt? IsInt value
  rw [two_pow_eq_cast]
  generalize Nat.pow 2 Layout.double.scale = one at hpos
  rw [signed_div_eq_iff hpos]
  by_cases hcond : (x.isFinite && Layout.double.units x.magnitude % one == 0) = true
  · rw [if_pos hcond]
    simp only [Bool.and_eq_true, beq_iff_eq] at hcond
    simp only [hcond, true_and, Option.some.injEq]
  · rw [if_neg hcond]
    simp only [Bool.and_eq_true, beq_iff_eq] at hcond
    constructor
    · intro h; exact absurd h (by simp)
    · rintro ⟨hfin, hmod, _⟩; exact absurd ⟨hfin, hmod⟩ hcond

/-- **Reading a number as a 64-bit integer** gives the integer that it is worth. -/
theorem toInt64?_eq_some_iff (x : Double) (o : Int64) : x.toInt64? = some o ↔ x.IsInt o.toInt := by
  have hbit : (signBit : Int) = 2 ^ 63 := rfl
  rw [toInt64?, Option.bind_eq_some_iff, hbit]
  simp only [toInt?_eq_some_iff]
  constructor
  · rintro ⟨n, hn, h⟩
    split_ifs at h with hrange
    injection h with h
    rw [← h, Int64.toInt_ofInt_of_le hrange.1 hrange.2]
    exact hn
  · intro h
    exact ⟨o.toInt, h, by rw [if_pos ⟨o.le_toInt, o.toInt_lt⟩, Int64.ofInt_toInt]⟩

/-- A number can be read as a 64-bit integer if it is worth an integer in range. -/
theorem toInt64?_isSome_iff (x : Double) :
    x.toInt64?.isSome = true ↔ ∃ n : Int, x.IsInt n ∧ -2 ^ 63 ≤ n ∧ n < 2 ^ 63 := by
  rw [Option.isSome_iff_exists]
  constructor
  · rintro ⟨o, ho⟩
    exact ⟨o.toInt, (toInt64?_eq_some_iff x o).mp ho, o.le_toInt, o.toInt_lt⟩
  · rintro ⟨n, hn, hlow, hhigh⟩
    refine ⟨Int64.ofInt n, (toInt64?_eq_some_iff x _).mpr ?_⟩
    rw [Int64.toInt_ofInt_of_le hlow hhigh]
    exact hn

/-- A number is worth one integer at most. -/
theorem IsInt.unique {x : Double} {m n : Int} (hm : x.IsInt m) (hn : x.IsInt n) : m = n := by
  have h := hm.2.symm.trans hn.2
  exact_mod_cast h

end Stencil.Double
