import Mathlib
import Stencil.Proofs.Numerals

/-!
# Decimals as numbers

A decimal denotes a rational, and is read as the number nearest to it (`isNearest_toDouble`). So it
is read exactly where some number is worth that rational.

Whole numbers up to `2 ^ 53` all are (`exists_isInt`). Beyond, a whole number is read as another
one, so that the limits of 64-bit integers shift: by the half steps of the numbers around `2 ^ 63`,
the last 512 integers below it are read as `2 ^ 63` itself, and so are the 1024 integers above it
(`toInt64?_toDouble_isSome_iff`).

The limit is a word like any other, `intLimit`, whose neighbours are known (`units_intLimit_pred`,
`units_intLimit_succ`). A ratio rounds to a word on one side of it or on the other according to a
midpoint, and at the midpoint according to which of the two words is even. That gives the bounds in
one step each, without a computation with numbers of that size.
-/

namespace Stencil

/-! ## The nearest number -/

/-- What a decimal denotes. -/
def Decimal.rational (d : Decimal) : ℚ := d.coefficient * 10 ^ d.exponent

theorem Decimal.rational_eq (d : Decimal) : d.rational = d.num / d.den := by
  have hten : (10 : ℚ) ≠ 0 := by norm_num
  obtain ⟨coefficient, exponent⟩ := d
  obtain ⟨n, rfl | rfl⟩ := Int.eq_nat_or_neg exponent
  · simp [rational, num, den]
  · rw [rational, zpow_neg, zpow_natCast]
    simp [num, den, div_eq_mul_inv]

theorem Decimal.rational_nonneg (d : Decimal) : 0 ≤ d.rational := by
  rw [rational_eq]
  positivity

/-- The rational with a sign. -/
def signed (negative : Bool) (r : ℚ) : ℚ := if negative then -r else r

namespace Double

/-- No finite number is nearer to the rational. -/
def IsNearest (x : Double) (r : ℚ) : Prop :=
  ∀ y : Double, y.isFinite = true → |x.value - r| ≤ |y.value - r|

/-- The number nearest to a rational is worth it exactly if some number is. -/
theorem IsNearest.value_eq_iff {x : Double} {r : ℚ} (h : x.IsNearest r)
    (hfin : x.isFinite = true) :
    x.value = r ↔ ∃ y : Double, y.isFinite = true ∧ y.value = r := by
  constructor
  · intro hx
    exact ⟨x, hfin, hx⟩
  · rintro ⟨y, hy, rfl⟩
    have hle := h y hy
    rw [sub_self, abs_zero] at hle
    exact sub_eq_zero.mp (abs_nonpos_iff.mp hle)

theorem value_eq_signed (x : Double) :
    x.value = signed x.isNegative (Layout.double.units x.magnitude / 2 ^ Layout.double.scale) := by
  unfold value signed
  cases x.isNegative <;> simp

/-- The magnitude of a value is that of its word, whatever its sign is. -/
theorem abs_value (x : Double) :
    |x.value| = Layout.double.units x.magnitude / 2 ^ Layout.double.scale := by
  have hnonneg : (0 : ℚ) ≤ Layout.double.units x.magnitude / 2 ^ Layout.double.scale := by
    positivity
  rw [value_eq_signed, signed]
  split_ifs
  · rw [abs_neg, abs_of_nonneg hnonneg]
  · exact abs_of_nonneg hnonneg

end Double

theorem abs_signed_sub_signed (negative : Bool) (a b : ℚ) :
    |signed negative a - signed negative b| = |a - b| := by
  unfold signed
  split_ifs
  · rw [← abs_neg, neg_sub_neg, neg_sub]
  · rfl

/-- A rational that is an integer with its sign is a natural number without it. -/
theorem exists_nat_of_signed {negative : Bool} {r : ℚ} (hr : 0 ≤ r) {z : Int}
    (h : signed negative r = z) : ∃ n : Nat, r = n ∧ z = if negative then -(n : Int) else n := by
  have hnat : ∀ m : Int, r = m → ∃ n : Nat, r = n ∧ m = n := by
    intro m hm
    have hnonneg : 0 ≤ m := by
      rw [hm] at hr
      exact_mod_cast hr
    obtain ⟨n, rfl⟩ := Int.eq_ofNat_of_zero_le hnonneg
    exact ⟨n, by exact_mod_cast hm, rfl⟩
  cases negative with
  | false => exact hnat z h
  | true =>
    obtain ⟨n, hn, hz⟩ := hnat (-z) (by rw [Int.cast_neg, ← h, signed, if_pos rfl, neg_neg])
    exact ⟨n, hn, by rw [if_pos rfl, ← hz, neg_neg]⟩

theorem abs_signed {r : ℚ} (h : 0 ≤ r) (negative : Bool) : |signed negative r| = r := by
  unfold signed
  split_ifs
  · rw [abs_neg, abs_of_nonneg h]
  · exact abs_of_nonneg h

namespace Layout

variable {l : Layout}

/-- How far a word is from a ratio. -/
theorem abs_sub_ratio (l : Layout) (w num : Nat) {den : Nat} (hden : 0 < den) :
    |(l.units w : ℚ) / 2 ^ l.scale - num / den|
      = ((l.units w * den : Nat) - (num * 2 ^ l.scale : Nat) : Int).natAbs / (2 ^ l.scale * den) := by
  have hscale : (0 : ℚ) < 2 ^ l.scale := by positivity
  have hden : (0 : ℚ) < den := by exact_mod_cast hden
  rw [div_sub_div _ _ hscale.ne' hden.ne', abs_div, abs_of_pos (mul_pos hscale hden)]
  congr 1
  push_cast [Nat.cast_natAbs]
  rw [mul_comm (2 ^ l.scale) (num : ℚ)]

/-- No word is worth a value that is nearer to a ratio than the word that it is rounded to. -/
theorem Rounds.abs_sub_le {word num den : Nat} (h : l.Rounds word (num * 2 ^ l.scale) den)
    (hden : 0 < den) (w : Nat) :
    |(l.units word : ℚ) / 2 ^ l.scale - num / den| ≤ |(l.units w : ℚ) / 2 ^ l.scale - num / den| := by
  rw [l.abs_sub_ratio _ _ hden, l.abs_sub_ratio _ _ hden]
  apply div_le_div_of_nonneg_right _ (by positivity)
  exact_mod_cast h.near w

end Layout

namespace Decimal

/-- The sign and the word of a decimal that is read as a number. -/
theorem exists_word (d : Decimal) (negative : Bool) :
    ∃ word, Layout.double.Rounds word (d.num * 2 ^ Layout.double.scale) d.den
      ∧ (d.toDouble negative).magnitude = min Layout.double.infinity word
      ∧ (d.toDouble negative).isNegative = negative := by
  obtain ⟨word, hrounds, hnearest⟩ := d.exists_rounds Double.even_binade
  have hlt := (d.nearest_le_infinity .double).trans_lt Double.infinity_lt_signBit
  refine ⟨word, hrounds, ?_, Double.isNegative_ofMagnitude negative hlt⟩
  rw [← hnearest]
  exact Double.magnitude_ofMagnitude negative hlt

/-- **A decimal is read as the nearest number**, if not as infinity. -/
theorem isNearest_toDouble (d : Decimal) (negative : Bool)
    (hfin : (d.toDouble negative).isFinite = true) :
    (d.toDouble negative).IsNearest (signed negative d.rational) := by
  obtain ⟨word, hrounds, hmagnitude, hsign⟩ := d.exists_word negative
  have hword : (d.toDouble negative).magnitude = word := by
    have hlt : (d.toDouble negative).magnitude < Layout.double.infinity := by
      simpa [Double.isFinite] using hfin
    omega
  intro y hy
  have hnonneg := d.rational_nonneg
  rw [d.rational_eq] at hnonneg
  rw [Double.value_eq_signed, hsign, hword, d.rational_eq, abs_signed_sub_signed]
  -- with another sign a number is only further away
  calc |(Layout.double.units word : ℚ) / 2 ^ Layout.double.scale - d.num / d.den|
      ≤ |(Layout.double.units y.magnitude : ℚ) / 2 ^ Layout.double.scale - d.num / d.den| :=
        hrounds.abs_sub_le d.den_pos y.magnitude
    _ = |(|y.value| - |signed negative (d.num / d.den : ℚ)|)| := by
        rw [Double.abs_value, abs_signed hnonneg]
    _ ≤ |y.value - signed negative (d.num / d.den : ℚ)| := abs_abs_sub_abs_le _ _

end Decimal

/-! ## Whole numbers -/

namespace Layout

section Whole

variable {l : Layout} {word n : Nat}

/-- A word from the first binade without fractions on is worth an integer. -/
theorem exists_units_eq (h : (l.scale + 1) * l.binade ≤ word) :
    ∃ m, l.units word = m * Nat.pow 2 l.scale := by
  have hshift : l.scale ≤ l.shift word := by
    have hdiv := (Nat.le_div_iff_mul_le l.binade_pos).mpr h
    unfold shift
    omega
  obtain ⟨k, hk⟩ := Nat.exists_eq_add_of_le' hshift
  refine ⟨l.significand word * 2 ^ k, ?_⟩
  rw [units_eq, hk, pow_add, Nat.mul_assoc, Nat.pow_eq]

-- the numbers have significands of 53 bits, and fractions of at least 52
variable (hbinade : l.binade = 2 ^ 52) (hscale : 52 ≤ l.scale)

include hbinade

/-- What a word `e` binades above the first one without fractions is worth. -/
theorem units_whole {m e : Nat} (hm : 2 ^ 52 ≤ m) (hm' : m ≤ 2 ^ 53) (hn : m * 2 ^ e = n) :
    l.units ((l.scale + e) * l.binade + m) = n * 2 ^ l.scale := by
  rw [units_add l (Or.inr (by omega)) (by omega), pow_add, ← hn]
  ring

include hscale

/-- **A natural number up to `2 ^ 53` is what a word is worth.** -/
theorem exists_word_of_le (h : n ≤ 2 ^ 53) :
    ∃ w ≤ (l.scale + 2) * l.binade, l.units w = n * Nat.pow 2 l.scale := by
  rcases Nat.eq_zero_or_pos n with rfl | hpos
  · exact ⟨0, Nat.zero_le _, by rw [units_zero, Nat.zero_mul]⟩
  -- the leading one of the significand is shifted to its place
  set j := 52 - n.log2 with hj
  have hlow := Nat.log2_self_le hpos.ne'
  have hhigh : n < 2 ^ (n.log2 + 1) := Nat.lt_log2_self
  have hm : l.binade ≤ n * 2 ^ j := by
    rw [hbinade]
    calc 2 ^ 52 ≤ 2 ^ (n.log2 + j) := Nat.pow_le_pow_right (by norm_num) (by omega)
      _ = 2 ^ n.log2 * 2 ^ j := pow_add _ _ _
      _ ≤ n * 2 ^ j := Nat.mul_le_mul_right _ hlow
  have hm' : n * 2 ^ j ≤ 2 * l.binade := by
    rw [hbinade]
    by_cases hzero : j = 0
    · rw [hzero]
      omega
    · calc n * 2 ^ j ≤ 2 ^ (n.log2 + 1) * 2 ^ j := Nat.mul_le_mul_right _ hhigh.le
        _ = 2 ^ (n.log2 + 1 + j) := (pow_add _ _ _).symm
        _ ≤ 2 ^ 53 := Nat.pow_le_pow_right (by norm_num) (by omega)
        _ = 2 * 2 ^ 52 := by norm_num
  refine ⟨(l.scale - j) * l.binade + n * 2 ^ j, ?_, ?_⟩
  · have hk : (l.scale - j) * l.binade ≤ l.scale * l.binade :=
      Nat.mul_le_mul_right _ (Nat.sub_le _ _)
    rw [Nat.add_mul]
    omega
  · rw [units_add l (Or.inr hm) hm', Nat.mul_assoc, ← pow_add, Nat.pow_eq]
    congr 2
    omega

/-- **A whole number is read as a whole number.** -/
theorem Rounds.whole (h : l.Rounds word (n * 2 ^ l.scale) 1) :
    ∃ m, l.units word = m * Nat.pow 2 l.scale := by
  by_cases hn : n ≤ 2 ^ 53
  · obtain ⟨w, _, hw⟩ := exists_word_of_le hbinade hscale hn
    have hexact : l.Rounds w (n * 2 ^ l.scale) 1 :=
      rounds_of_eq Nat.one_pos (by rw [hw, Nat.mul_one, Nat.pow_eq])
    exact ⟨n, h.unique hexact Nat.one_pos ▸ hw⟩
  · apply exists_units_eq
    by_contra hlt
    have hlt : word < (l.scale + 0) * l.binade + 2 ^ 52 := by
      rw [← hbinade, ← Nat.succ_mul]
      exact Nat.lt_of_not_le hlt
    -- the words up to that of `2 ^ 52` are too far away
    have hmono := l.units_strictMono.monotone
    have hunits := units_whole hbinade (e := 0) (Nat.le_refl _) (by norm_num) (Nat.mul_one _)
    have hword := hmono hlt.le
    have hnext : l.units (word + 1) ≤ _ := hmono (Nat.succ_le_of_lt hlt)
    have hhigh := h.high
    have hfar : 2 ^ 53 * 2 ^ l.scale < n * 2 ^ l.scale :=
      Nat.mul_lt_mul_of_pos_right (Nat.lt_of_not_le hn) (Nat.two_pow_pos _)
    rw [hunits] at hword hnext
    rw [Nat.mul_one] at hhigh
    generalize n * 2 ^ l.scale = scaled at hhigh hfar
    generalize 2 ^ l.scale = one at hword hnext hfar
    omega

end Whole

/-- The word of `2 ^ 63`. -/
def intLimit (l : Layout) : Nat := (l.scale + 12) * l.binade

section Limit

variable {l : Layout} {word n : Nat} (hbinade : l.binade = 2 ^ 52)

include hbinade

theorem units_intLimit : l.units l.intLimit = 2 ^ 63 * 2 ^ l.scale := by
  have hword : l.intLimit = (l.scale + 11) * l.binade + 2 ^ 52 := by
    rw [intLimit, ← hbinade]
    ring
  rw [hword]
  exact units_whole hbinade (Nat.le_refl _) (by norm_num) (by norm_num)

theorem units_intLimit_succ : l.units (l.intLimit + 1) = (2 ^ 63 + 2048) * 2 ^ l.scale := by
  have hword : l.intLimit + 1 = (l.scale + 11) * l.binade + (2 ^ 52 + 1) := by
    rw [intLimit, ← hbinade]
    ring
  rw [hword]
  exact units_whole hbinade (by norm_num) (by norm_num) (by norm_num)

theorem units_intLimit_pred : l.units (l.intLimit - 1) = (2 ^ 63 - 1024) * 2 ^ l.scale := by
  have hword : l.intLimit - 1 = (l.scale + 10) * l.binade + (2 ^ 53 - 1) := by
    rw [intLimit, Nat.add_mul, Nat.add_mul]
    omega
  rw [hword]
  exact units_whole hbinade (by norm_num) (by norm_num) (by norm_num)

/-- A whole number is a word up to the limit exactly if it is `2 ^ 63` at most. -/
theorem le_intLimit_iff {m : Nat} (hm : l.units word = m * Nat.pow 2 l.scale) :
    word ≤ l.intLimit ↔ m ≤ 2 ^ 63 := by
  rw [← l.units_strictMono.le_iff_le, hm, units_intLimit hbinade, Nat.pow_eq]
  exact Nat.mul_le_mul_right_iff (Nat.two_pow_pos _)

theorem lt_intLimit_iff {m : Nat} (hm : l.units word = m * Nat.pow 2 l.scale) :
    word < l.intLimit ↔ m < 2 ^ 63 := by
  rw [← l.units_strictMono.lt_iff_lt, hm, units_intLimit hbinade, Nat.pow_eq]
  exact Nat.mul_lt_mul_right (Nat.two_pow_pos _)

theorem even_intLimit : l.intLimit % 2 = 0 := by
  rw [intLimit, hbinade]
  omega

/-- **The whole numbers that are read as `2 ^ 63` or less.** -/
theorem Rounds.le_intLimit_iff (h : l.Rounds word (n * 2 ^ l.scale) 1) :
    word ≤ l.intLimit ↔ n ≤ 2 ^ 63 + 1024 := by
  have heven := even_intLimit hbinade
  have hscaled : n ≤ 2 ^ 63 + 1024 ↔ n * 2 ^ l.scale ≤ (2 ^ 63 + 1024) * 2 ^ l.scale :=
    (Nat.mul_le_mul_right_iff (Nat.two_pow_pos _)).symm
  rw [h.le_iff Nat.one_pos, units_intLimit hbinade, units_intLimit_succ hbinade, hscaled]
  generalize n * 2 ^ l.scale = scaled
  generalize 2 ^ l.scale = one
  omega

/-- **The whole numbers that are read as less than `2 ^ 63`.** -/
theorem Rounds.lt_intLimit_iff (h : l.Rounds word (n * 2 ^ l.scale) 1) :
    word < l.intLimit ↔ n < 2 ^ 63 - 512 := by
  have heven := even_intLimit hbinade
  have hpos : 0 < l.intLimit := Nat.mul_pos (Nat.succ_pos _) l.binade_pos
  have hpred : word < l.intLimit ↔ word ≤ l.intLimit - 1 := by omega
  have hscaled : n < 2 ^ 63 - 512 ↔ n * 2 ^ l.scale < (2 ^ 63 - 512) * 2 ^ l.scale :=
    (Nat.mul_lt_mul_right (Nat.two_pow_pos _)).symm
  rw [hpred, h.le_iff Nat.one_pos, Nat.sub_add_cancel hpos, units_intLimit hbinade,
    units_intLimit_pred hbinade, hscaled]
  generalize n * 2 ^ l.scale = scaled
  generalize 2 ^ l.scale = one
  omega

end Limit

theorem double_binade : double.binade = 2 ^ 52 := rfl

theorem le_double_scale : 52 ≤ double.scale := by decide

theorem double_intLimit_lt : double.intLimit < double.infinity := by decide

end Layout

/-- **Whole numbers up to `2 ^ 53` are worth numbers.** -/
theorem Double.exists_isInt {z : Int} (h : z.natAbs ≤ 2 ^ 53) : ∃ x : Double, x.IsInt z := by
  obtain ⟨word, hle, hunits⟩ :=
    Layout.exists_word_of_le Layout.double_binade Layout.le_double_scale h
  have hlast : (Layout.double.scale + 2) * Layout.double.binade < Layout.double.infinity := by decide
  have hint := isInt_ofMagnitude (hle.trans_lt hlast) hunits
  rcases Int.natAbs_eq z with hz | hz
  · rw [hz]
    exact ⟨_, hint false⟩
  · rw [hz]
    exact ⟨_, hint true⟩

namespace Decimal

variable {d : Decimal} {n : Nat}

/-- Which whole numbers are read as 64-bit integers, by their sign: `-2 ^ 63` is one, and `2 ^ 63` is
    not. -/
theorem toInt64?_isSome_iff_of_nat (hd : d.rational = n) (negative : Bool) :
    (d.toDouble negative).toInt64?.isSome = true
      ↔ if negative then n ≤ 2 ^ 63 + 1024 else n < 2 ^ 63 - 512 := by
  obtain ⟨word, hrounds, hmagnitude, hsign⟩ := d.exists_word negative
  have hnum : d.num = n * d.den := by
    have hden : (d.den : ℚ) ≠ 0 := by exact_mod_cast d.den_pos.ne'
    rw [d.rational_eq, div_eq_iff hden] at hd
    exact_mod_cast hd
  have hrounds : Layout.double.Rounds word (n * 2 ^ Layout.double.scale) 1 := by
    apply hrounds.of_ratio d.den_pos Nat.one_pos
    rw [hnum, Nat.mul_one, Nat.mul_right_comm]
  -- what a whole number rounds to is a whole number again
  obtain ⟨m, hm⟩ := hrounds.whole Layout.double_binade Layout.le_double_scale
  have hle := Layout.le_intLimit_iff Layout.double_binade hm
  have hlt := Layout.lt_intLimit_iff Layout.double_binade hm
  have hint : word < Layout.double.infinity →
      (d.toDouble negative).IsInt (if negative then -(m : Int) else m) := by
    intro hfin
    have hx : d.toDouble negative = Double.ofMagnitude negative word := by
      rw [← Double.ofMagnitude_magnitude (d.toDouble negative), hsign, hmagnitude,
        Nat.min_eq_right hfin.le]
    rw [hx]
    exact Double.isInt_ofMagnitude hfin hm negative
  have hlimit := Layout.double_intLimit_lt
  have hfinite : ∀ z, (d.toDouble negative).IsInt z → word < Layout.double.infinity := by
    intro z hz
    have hfin := hz.1
    rw [Double.isFinite, decide_eq_true_eq, hmagnitude] at hfin
    omega
  rw [Double.toInt64?_isSome_iff]
  cases negative with
  | true =>
    show _ ↔ n ≤ 2 ^ 63 + 1024
    rw [← hrounds.le_intLimit_iff Layout.double_binade, hle]
    constructor
    · rintro ⟨z, hz, hlow, _⟩
      have hvalue : z = -(m : Int) := hz.unique (hint (hfinite z hz))
      omega
    · intro hm'
      have hfin := (hle.mpr hm').trans_lt hlimit
      exact ⟨-(m : Int), hint hfin, by omega, by omega⟩
  | false =>
    show _ ↔ n < 2 ^ 63 - 512
    rw [← hrounds.lt_intLimit_iff Layout.double_binade, hlt]
    constructor
    · rintro ⟨z, hz, _, hhigh⟩
      have hvalue : z = (m : Int) := hz.unique (hint (hfinite z hz))
      omega
    · intro hm'
      have hfin := (hlt.mpr hm').trans hlimit
      exact ⟨(m : Int), hint hfin, by omega, by omega⟩

/-- **Which whole numbers are read as 64-bit integers.** -/
theorem toInt64?_toDouble_isSome_iff {negative : Bool} {z : Int}
    (hd : signed negative d.rational = z) :
    (d.toDouble negative).toInt64?.isSome = true ↔ -2 ^ 63 - 1024 ≤ z ∧ z < 2 ^ 63 - 512 := by
  obtain ⟨n, hn, rfl⟩ := exists_nat_of_signed d.rational_nonneg hd
  rw [toInt64?_isSome_iff_of_nat hn]
  cases negative with
  | true =>
    simp only [if_true]
    omega
  | false =>
    simp only [Bool.false_eq_true, if_false]
    omega

end Decimal

end Stencil
