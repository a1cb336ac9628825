import Mathlib
import Stencil.Format.Calc
import Stencil.Proofs.Patterns

/-!
# Literals of generated code

A constant of generated code is a literal of the element type, unless it is a NaN or an infinity. The
literal is read as a compiler of the generated language reads it: a sign, a numeral with a point or a
power of ten, and the suffix of the type, rounded to the nearest element (`Width.readLiteral?`).

What is read is the constant as an element: its sign and its word after narrowing
(`Width.readLiteral?_literal`). So a literal denotes zero exactly where narrowing gives zero, which
for elements of four bytes happens to constants that are not zero (`Width.narrow_single_eq_zero_iff`).
-/

namespace Stencil

/-! ## Taking numerals with powers of ten -/

namespace Numeral

/-- What follows cannot extend a numeral. -/
def Ends (rest : List Char) : Prop :=
  ∀ c ∈ rest.head?, isDigit c = false ∧ c ≠ '.' ∧ c ≠ 'e' ∧ c ≠ 'E'

theorem takePower_of_ends {rest : List Char} (h : Ends rest) : takePower rest = (none, rest) := by
  cases rest with
  | nil => rfl
  | cons c rest =>
    obtain ⟨_, _, he, hE⟩ := h c rfl
    rw [takePower, if_neg (not_or.mpr ⟨he, hE⟩)]

theorem takePower_power {p : Power} (hp : p.Spelled) {rest : List Char} (h : Ends rest) :
    takePower (p.text ++ rest) = (some p, rest) := by
  obtain ⟨mark, sign, ds⟩ := p
  obtain ⟨hmark, hsign, hne, hds⟩ := hp
  obtain ⟨d, ds', rfl⟩ := List.exists_cons_of_ne_nil hne
  obtain ⟨htake, hdrop⟩ := takeWhile_run hds fun c hc => (h c hc).1
  have htext : Power.text ⟨mark, sign, d :: ds'⟩ ++ rest
      = mark :: (sign.toList ++ d :: (ds' ++ rest)) := by
    simp [Power.text]
  rw [List.cons_append] at htake hdrop
  rw [htext, takePower, if_pos hmark,
    takeSign_sign_append hsign (hds d List.mem_cons_self) (ds' ++ rest)]
  simp only [htake, hdrop]

/-- **A numeral is taken off whole** where what follows cannot extend it. -/
theorem take_of_spelled {n : Numeral} (hn : n.Spelled) {rest : List Char} (hrest : Ends rest) :
    take (n.text ++ rest) = some (n, rest) := by
  obtain ⟨whole, ds, power⟩ := n
  obtain ⟨hne, hwhole, hds, hpower⟩ := hn
  dsimp only at hne hwhole hds hpower
  set after := (power.map Power.text).getD [] ++ rest with hafter
  have htext : text ⟨whole, ds, power⟩ ++ rest = whole ++ (fractionText ds ++ after) := by
    simp [text, hafter]
  -- the power, if there is one, starts with its mark
  have hmark : ∀ c ∈ after.head?, isDigit c = false ∧ c ≠ '.' := by
    cases power with
    | none => exact fun c hc => ⟨(hrest c hc).1, (hrest c hc).2.1⟩
    | some p =>
      intro c hc
      obtain rfl : p.mark = c := by simpa [hafter, Power.text] using hc
      exact (hpower p rfl).mark_ne
  have hpart : takePower after = (power, rest) := by
    cases power with
    | none => exact takePower_of_ends hrest
    | some p => exact takePower_power (hpower p rfl) hrest
  -- the fraction, if there is one, starts with a point
  have hpoint : ∀ c ∈ (fractionText ds ++ after).head?, isDigit c = false := by
    rw [fractionText]
    split_ifs with hempty
    · exact fun c hc => (hmark c hc).1
    · intro c hc
      obtain rfl : '.' = c := by simpa using hc
      decide
  have hfraction : takeFraction (fractionText ds ++ after) = (ds, after) := by
    rw [fractionText]
    split_ifs with hempty
    · rw [hempty, List.nil_append]
      cases hcons : after with
      | nil => rfl
      | cons c cs => exact takeFraction_of_ne (hmark c (by rw [hcons]; rfl)).2 cs
    · obtain ⟨htake, hdrop⟩ := takeWhile_run (List.forall_mem_nil (isDigit · = true))
        fun c hc => (hmark c hc).1
      rw [List.cons_append, takeFraction_fraction hempty hds]
      rw [List.nil_append] at htake hdrop
      rw [htake, hdrop, List.append_nil]
  obtain ⟨htake, hdrop⟩ := takeWhile_run hwhole hpoint
  have hsome : ¬ (whole = [] ∧ ds = []) := not_and_or.mpr hne
  rw [htext, take]
  simp only [htake, hdrop, hfraction, hpart, if_neg hsome]

/-- A numeral is told by its characters. -/
theorem Spelled.text_injective {n n' : Numeral} (h : n.Spelled) (h' : n'.Spelled)
    (htext : n.text = n'.text) : n = n' := by
  have hends : Ends [] := fun c hc => by cases hc
  have htake := take_of_spelled h hends
  rw [htext, take_of_spelled h' hends] at htake
  exact (Prod.mk.inj (Option.some.inj htake)).1.symm

end Numeral

/-! ## The numeral of a literal -/

namespace Decimal

/-- The power of ten of the first digit, as it is written. -/
def power (d : Decimal) : Numeral.Power :=
  ⟨'e', if d.leading < 0 then some '-' else none, Nat.toDigits 10 d.leading.natAbs⟩

/-- The numeral that a decimal is written as in a literal. -/
def literalNumeral (d : Decimal) : Numeral :=
  if Style.literal.isPositional d then
    if 0 ≤ d.exponent then { d.numeral with fraction := ['0'] } else d.numeral
  else ⟨d.digits.take 1, d.digits.drop 1, some d.power⟩

theorem power_spelled (d : Decimal) : d.power.Spelled := by
  refine ⟨Or.inl rfl, ?_, Nat.toDigits_ne_nil, fun c hc => isDigit_of_mem_toDigits hc⟩
  intro c hc
  simp only [power] at hc
  split_ifs at hc
  · exact Or.inr (Option.some.inj hc).symm
  · cases hc

theorem literalNumeral_spelled (d : Decimal) : d.literalNumeral.Spelled := by
  have hplain := d.numeral_plain
  unfold literalNumeral
  split_ifs
  · refine ⟨Or.inl hplain.nonempty, hplain.whole, ?_, ?_⟩
    · intro c hc
      rw [List.mem_singleton.mp hc]
      rfl
    · intro p hp
      rw [show _ = none from hplain.power] at hp
      cases hp
  · refine ⟨Or.inl hplain.nonempty, hplain.whole, hplain.fraction, ?_⟩
    intro p hp
    rw [hplain.power] at hp
    cases hp
  · refine ⟨Or.inl ?_, fun c hc => isDigit_of_mem_digits (List.mem_of_mem_take hc),
      fun c hc => isDigit_of_mem_digits (List.mem_of_mem_drop hc), ?_⟩
    · have hne : d.digits ≠ [] := Nat.toDigits_ne_nil
      simpa using hne
    · intro p hp
      obtain rfl := Option.some.inj hp
      exact d.power_spelled

/-- A literal has a point or a power of ten. -/
theorem literalNumeral_marked (d : Decimal) :
    d.literalNumeral.fraction ≠ [] ∨ d.literalNumeral.power ≠ none := by
  unfold literalNumeral
  split_ifs with hpositional hexponent
  · exact Or.inl (List.cons_ne_nil _ _)
  · left
    have hne : d.digits ≠ [] := Nat.toDigits_ne_nil
    unfold numeral
    rw [if_neg hexponent]
    dsimp only
    split_ifs with hplaces
    · rw [Ne, List.drop_eq_nil_iff]
      omega
    · simp [hne]
  · exact Or.inr (Option.some_ne_none _)

theorem toList_repr_leading (d : Decimal) :
    d.leading.repr.toList = d.power.sign.toList ++ d.power.digits := by
  unfold power
  cases d.leading with
  | ofNat n =>
    have hnot : ¬ Int.ofNat n < 0 := Int.not_lt.mpr (Int.natCast_nonneg n)
    rw [if_neg hnot]
    simp [Int.repr, Nat.repr]
  | negSucc n =>
    rw [if_pos (Int.negSucc_lt_zero n)]
    simp [Int.repr, Nat.repr]

/-- A decimal is written as its numeral. -/
theorem toList_decimalText (d : Decimal) :
    (Style.literal.decimalText d).toList = d.literalNumeral.text := by
  unfold Style.decimalText literalNumeral
  split_ifs with hpositional hexponent
  · have hnumeral : d.numeral = ⟨d.digits ++ List.replicate d.exponent.toNat '0', [], none⟩ :=
      if_pos hexponent
    rw [Style.positionalText, if_pos hexponent, hnumeral]
    simp [Style.literal, Numeral.text, Numeral.fractionText]
  · -- with a fraction the styles agree
    have hplain : Style.literal.positionalText d = Style.plain.positionalText d := by
      simp only [Style.positionalText, if_neg hexponent]
    rw [hplain, d.toList_positionalText]
  · have hmark : d.power.mark = 'e' := rfl
    have hpower := d.toList_repr_leading
    rw [Style.scientificText]
    cases hdigits : d.digits with
    | nil => exact absurd hdigits Nat.toDigits_ne_nil
    | cons c cs =>
      cases cs with
      | nil => simp [Numeral.text, Numeral.fractionText, Numeral.Power.text, hmark, hpower]
      | cons c' cs => simp [Numeral.text, Numeral.fractionText, Numeral.Power.text, hmark, hpower]

theorem power_value (d : Decimal) : d.power.value = d.leading := by
  rw [Numeral.Power.value, power]
  dsimp only
  rw [ofDigits_toDigits]
  by_cases hneg : d.leading < 0
  · rw [if_pos hneg, if_pos rfl]
    omega
  · rw [if_neg hneg, if_neg (by simp)]
    omega

/-- **The numeral denotes the decimal**: the ratio is the same. -/
theorem literalNumeral_ratio (d : Decimal) :
    d.literalNumeral.value.num * d.den = d.num * d.literalNumeral.value.den := by
  have hdigits : ofDigits d.digits = d.coefficient := ofDigits_toDigits d.coefficient
  unfold literalNumeral
  split_ifs with hpositional hexponent
  · have hnumeral : d.numeral = ⟨d.digits ++ List.replicate d.exponent.toNat '0', [], none⟩ :=
      if_pos hexponent
    have hdown : (-d.exponent).toNat = 0 := by omega
    have hzero : ofDigits (d.digits ++ List.replicate d.exponent.toNat '0' ++ ['0'])
        = d.coefficient * 10 ^ d.exponent.toNat * 10 := by
      rw [show ['0'] = List.replicate 1 '0' from rfl, ofDigits_append_zeros, ofDigits_append_zeros,
        hdigits, pow_one]
    rw [hnumeral, num, den, num, den, Numeral.value]
    dsimp only
    rw [hzero, hdown]
    simp
  · obtain ⟨hnum, hden⟩ := d.numeral_value
    rw [hnum, hden]
  · have hvalue : Numeral.value ⟨d.digits.take 1, d.digits.drop 1, some d.power⟩ = d := by
      rw [Numeral.value, List.take_append_drop, hdigits]
      have hlength := d.digits_length_pos
      cases d with
      | mk coefficient exponent =>
        simp only [Option.map_some, Option.getD_some, power_value, leading, List.length_drop, mk.injEq,
          true_and]
        omega
    rw [hvalue]

end Decimal

/-- The word nearest to a ratio is zero up to half a unit. -/
theorem Layout.nearest_eq_zero_iff {l : Layout} (heven : l.binade % 2 = 0) (hinf : 0 < l.infinity)
    (num : Nat) {den : Nat} (hden : 0 < den) :
    l.nearest num den = 0 ↔ 2 * (num * 2 ^ l.scale) ≤ den := by
  obtain ⟨word, hrounds, hnearest⟩ := exists_rounds heven num hden
  have hzero : l.nearest num den = 0 ↔ word = 0 := by
    rw [hnearest]
    omega
  rw [hzero, ← rounds_zero_iff (l := l)]
  constructor
  · rintro rfl
    exact hrounds
  · intro h
    exact hrounds.unique h hden

/-! ## Reading literals -/

/-- The sign and the word of a literal of the element type. -/
def Width.readLiteral? (w : Width) (text : String) : Option (Bool × Nat) :=
  let (negative, cs) := if text.toList.head? = some '-' then (true, text.toList.tail)
    else (false, text.toList)
  match Numeral.take cs with
  | some (n, rest) =>
    if (n.fraction ≠ [] ∨ n.power ≠ none) ∧ rest = w.literalSuffix.toList then
      some (negative, n.value.nearest w.layout)
    else none
  | none => none

/-- **The text of a finite word is a numeral that is read as the word.** -/
theorem exists_numeral_of_literal {l : Layout} {word : Nat} (heven : l.binade % 2 = 0)
    (hfin : word < l.infinity) :
    ∃ n : Numeral, n.Spelled ∧ (n.fraction ≠ [] ∨ n.power ≠ none)
      ∧ (Style.literal.magnitudeText l word).toList = n.text ∧ n.value.nearest l = word := by
  unfold Style.magnitudeText
  rw [if_neg (by omega), if_neg (by omega)]
  split_ifs with hzero
  · have hdigit : ∀ c ∈ ['0'], isDigit c = true := by
      intro c hc
      rw [List.mem_singleton.mp hc]
      rfl
    refine ⟨⟨['0'], ['0'], none⟩, ⟨Or.inl (List.cons_ne_nil _ _), hdigit, hdigit, ?_⟩,
      Or.inl (List.cons_ne_nil _ _), rfl, ?_⟩
    · intro p hp
      cases hp
    · simp [Decimal.nearest, Numeral.value, ofDigits, hzero]
  · set d := l.shortest word
    refine ⟨d.literalNumeral, d.literalNumeral_spelled, d.literalNumeral_marked,
      d.toList_decimalText, ?_⟩
    apply Decimal.nearest_eq_of_rounds heven hfin
    apply (l.rounds_shortest word).of_ratio d.den_pos (Decimal.den_pos _)
    rw [Nat.mul_right_comm, d.literalNumeral_ratio, Nat.mul_right_comm]

namespace Width

theorem even_binade (w : Width) : w.layout.binade % 2 = 0 := by
  cases w <;> decide

theorem ends_literalSuffix (w : Width) : Numeral.Ends w.literalSuffix.toList := by
  intro c hc
  cases w with
  | single =>
    obtain rfl : 'f' = c := by simpa [literalSuffix] using hc
    decide
  | double => cases hc

/-- A numeral starts with a digit or a point. -/
theorem head?_text_ne {n : Numeral} (hn : n.Spelled) (rest : List Char) :
    (n.text ++ rest).head? ≠ some '-' := by
  obtain ⟨whole, ds, power⟩ := n
  obtain ⟨hne, hwhole, _, _⟩ := hn
  dsimp only at hne hwhole
  rw [Numeral.text, List.append_assoc, List.append_assoc]
  cases whole with
  | nil =>
    have hds : ds ≠ [] := by simpa using hne
    rw [Numeral.fractionText, if_neg hds]
    simp
  | cons c cs =>
    intro hc
    obtain rfl : c = '-' := by simpa using hc
    exact absurd (hwhole '-' List.mem_cons_self) (by decide)

/-- A sign, a numeral and the suffix are read as the element nearest to the numeral. -/
theorem readLiteral?_signed (w : Width) (negative : Bool) {n : Numeral} (hspelled : n.Spelled)
    (hmarked : n.fraction ≠ [] ∨ n.power ≠ none) {text : String}
    (htext : text.toList
      = (if negative then ['-'] else []) ++ (n.text ++ w.literalSuffix.toList)) :
    w.readLiteral? text = some (negative, n.value.nearest w.layout) := by
  have htake := Numeral.take_of_spelled hspelled w.ends_literalSuffix
  have hparts : (if text.toList.head? = some '-' then (true, text.toList.tail)
      else (false, text.toList)) = (negative, n.text ++ w.literalSuffix.toList) := by
    rw [htext]
    cases negative with
    | true => rfl
    | false => exact if_neg (head?_text_ne hspelled _)
  rw [readLiteral?, hparts]
  dsimp only
  rw [htake]
  exact if_pos ⟨hmarked, rfl⟩

/-- **A literal is read as the constant that it stands for**, narrowed to an element. -/
theorem readLiteral?_literal (w : Width) (v : Double) :
    w.readLiteral? (w.literal v)
      = if w.narrow v < w.layout.infinity then some (v.isNegative, w.narrow v) else none := by
  unfold literal
  dsimp only
  by_cases hnan : w.layout.infinity < w.narrow v
  · rw [if_pos hnan, if_neg (Nat.lt_asymm hnan)]
    rfl
  · rw [if_neg hnan]
    by_cases hinf : w.narrow v = w.layout.infinity
    · have hnot : ¬ w.narrow v < w.layout.infinity := by omega
      simp only [if_pos hinf, if_neg hnot]
      cases v.isNegative <;> rfl
    · have hfin : w.narrow v < w.layout.infinity := by omega
      obtain ⟨n, hspelled, hmarked, htext, hvalue⟩ :=
        exists_numeral_of_literal w.even_binade hfin
      rw [if_neg hinf, if_pos hfin, ← hvalue]
      apply w.readLiteral?_signed v.isNegative hspelled hmarked
      rw [hvalue, Style.text, String.toList_append, String.toList_append, htext, List.append_assoc,
        decide_eq_true hfin.le, Bool.and_true]
      cases v.isNegative <;> rfl

/-! ## Zero -/

theorem infinity_pos (w : Width) : 0 < w.layout.infinity := by
  cases w <;> decide

/-- A literal denotes zero where narrowing gives zero. -/
theorem readLiteral?_literal_eq_zero_iff (w : Width) (v : Double) :
    (∃ negative, w.readLiteral? (w.literal v) = some (negative, 0)) ↔ w.narrow v = 0 := by
  rw [readLiteral?_literal]
  constructor
  · rintro ⟨negative, h⟩
    split_ifs at h
    exact congrArg Prod.snd (Option.some.inj h)
  · intro h
    refine ⟨v.isNegative, ?_⟩
    rw [h, if_pos w.infinity_pos]

theorem narrow_double_eq_zero_iff (v : Double) : double.narrow v = 0 ↔ v.isZero = true := by
  rw [Double.isZero, beq_iff_eq]
  rfl

/-- A number of units against a power of two, as a ratio. -/
theorem twice_le_two_pow_iff (u a b : Nat) :
    2 * (u * 2 ^ a) ≤ 2 ^ b ↔ (u : ℚ) / 2 ^ b ≤ 1 / 2 ^ (a + 1) := by
  rw [div_le_div_iff₀ (by positivity) (by positivity), one_mul, pow_succ]
  have hcast : (u : ℚ) * (2 ^ a * 2) ≤ 2 ^ b ↔ u * (2 ^ a * 2) ≤ 2 ^ b := by
    exact_mod_cast Iff.rfl
  rw [hcast]
  constructor <;> intro h <;> linarith

/-- **Narrowed to four bytes, zero is what is not above half the least positive element.** -/
theorem narrow_single_eq_zero_iff (v : Double) :
    single.narrow v = 0 ↔ v.isFinite = true ∧ |v.value| ≤ 1 / 2 ^ 150 := by
  have hsingle : 150 = Layout.single.scale + 1 := by decide
  have hvalue : |v.value| = Layout.double.units v.magnitude / 2 ^ Layout.double.scale := by
    rw [Double.value, abs_mul, abs_of_nonneg (by positivity : (0 : ℚ) ≤ _ / _)]
    split_ifs <;> simp
  -- a constant that is no number, or infinite, stays so
  by_cases hfin : v.magnitude < Layout.double.infinity
  · have hnan : v.isNaN = false := by simp [Double.isNaN]; omega
    have hinf : v.isInfinite = false := by simp [Double.isInfinite]; omega
    have hnarrow : single.narrow v
        = Layout.single.nearest (Layout.double.units v.magnitude) (2 ^ Layout.double.scale) := by
      simp [narrow, hnan, hinf]
    rw [hnarrow, Layout.nearest_eq_zero_iff (by decide) (by decide) _ (Nat.two_pow_pos _),
      twice_le_two_pow_iff, hvalue, hsingle, Double.isFinite, decide_eq_true hfin]
    exact (and_iff_right rfl).symm
  · have hnarrow : single.narrow v ≠ 0 := by
      rw [narrow]
      split_ifs with hnan hinf
      · exact Nat.succ_ne_zero _
      · decide
      · simp only [Double.isNaN, Double.isInfinite, decide_eq_true_eq, beq_iff_eq] at hnan hinf
        omega
    rw [Double.isFinite, decide_eq_false hfin]
    simp [hnarrow]

end Width

end Stencil
