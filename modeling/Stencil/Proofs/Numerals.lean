import Mathlib
import Stencil.Number.Numeral
import Stencil.Number.Style
import Stencil.Proofs.Rounding
import Stencil.Proofs.Values

/-!
# Numbers are read back as they are written

The plain text of a finite number is a numeral and perhaps a sign. The numeral is taken off the
front of a text whole, whatever follows that cannot extend it (`Numeral.take_text`), and it denotes
a decimal that is rounded to the number (`take_magnitudeText`). So a number can be told from its
text (`Double.text_injective`).

A numeral is three runs of digits with marks between: the whole part, perhaps a fraction, perhaps a
power. Each run is taken as long as it goes (`split_run`), and whether the next part is there is
decided by one character. What can follow a numeral without extending it is said by `Breaks`.

The text is the shortest one that still rounds to the number. How it is found does not matter here:
that it rounds to the number is all that is used, and two numbers that the same decimal rounds to
are one number.

The second half is about whole numbers. A value that is a whole number is one in the same sense
whether it is written out or computed from its bits (`IsInt.units`, `isInt_toDouble`), and its
negative is the negative whole number.
-/

namespace Stencil

/-! ## Digits -/

theorem isDigit_eq (c : Char) : isDigit c = c.isDigit := by
  simp only [isDigit, Char.isDigit, Char.le_def]

theorem isDigit_of_mem_toDigits {n : Nat} {c : Char} (h : c ∈ Nat.toDigits 10 n) :
    isDigit c = true := by
  rw [isDigit_eq]
  exact Nat.isDigit_of_mem_toDigits (by norm_num) (by norm_num) h

theorem ofDigits_eq (ds : List Char) : ofDigits ds = Nat.ofDigitChars 10 ds 0 := rfl

theorem ofDigits_toDigits (n : Nat) : ofDigits (Nat.toDigits 10 n) = n :=
  Nat.ofDigitChars_ten_toDigits

theorem ofDigits_append_zeros (ds : List Char) (k : Nat) :
    ofDigits (ds ++ List.replicate k '0') = ofDigits ds * 10 ^ k := by
  rw [ofDigits_eq, Nat.ofDigitChars_append, Nat.ofDigitChars_replicate_zero, ← ofDigits_eq,
    Nat.mul_comm]

theorem ofDigits_zeros_append (k : Nat) (ds : List Char) :
    ofDigits (List.replicate k '0' ++ ds) = ofDigits ds := by
  rw [ofDigits_eq, Nat.ofDigitChars_append, Nat.ofDigitChars_replicate_zero, Nat.mul_zero,
    ← ofDigits_eq]

/-! ## Numerals -/

/-- What follows cannot extend a word or a numeral. -/
def Breaks (rest : List Char) : Prop := ∀ c ∈ rest.head?, isLetterOrDigit c = false ∧ c ≠ '.'

theorem breaks_nil : Breaks [] := fun _ hc => absurd hc (by simp)

/-- A character that is neither a letter nor a digit nor a point ends a numeral. -/
theorem breaks_cons {c : Char} (hclass : isLetterOrDigit c = false) (hpoint : c ≠ '.')
    (cs : List Char) : Breaks (c :: cs) := by
  intro c' hc'
  obtain rfl : c = c' := by simpa using hc'
  exact ⟨hclass, hpoint⟩

/-- A run of a class of characters ends where another character follows. -/
theorem takeWhile_run {p : Char → Bool} {cs rest : List Char} (hcs : ∀ c ∈ cs, p c = true)
    (hrest : ∀ c ∈ rest.head?, p c = false) :
    (cs ++ rest).takeWhile p = cs ∧ (cs ++ rest).dropWhile p = rest := by
  rw [List.takeWhile_append_of_pos hcs, List.dropWhile_append_of_pos hcs]
  cases rest with
  | nil => simp
  | cons c rest => simp [hrest c (by simp)]

/-- Two runs of one class, each ended by another character, are one if the texts are. -/
theorem split_run {p : Char → Bool} {cs cs' rest rest' : List Char} (hcs : ∀ c ∈ cs, p c = true)
    (hcs' : ∀ c ∈ cs', p c = true) (hrest : ∀ c ∈ rest.head?, p c = false)
    (hrest' : ∀ c ∈ rest'.head?, p c = false) (h : cs ++ rest = cs' ++ rest') :
    cs = cs' ∧ rest = rest' := by
  obtain ⟨htake, hdrop⟩ := takeWhile_run hcs hrest
  obtain ⟨htake', hdrop'⟩ := takeWhile_run hcs' hrest'
  rw [h] at htake hdrop
  exact ⟨htake.symm.trans htake', hdrop.symm.trans hdrop'⟩

/-- What follows a numeral is no digit, and so cannot extend its last run. -/
theorem Breaks.not_digit {rest : List Char} (h : Breaks rest) :
    ∀ c ∈ rest.head?, isDigit c = false := by
  intro c hc
  have hclass := (h c hc).1
  rw [isLetterOrDigit, Bool.or_eq_false_iff] at hclass
  exact hclass.2

namespace Numeral

/-- The numeral has digits, perhaps a fraction, and no power of ten. -/
structure Plain (n : Numeral) : Prop where
  nonempty : n.whole ≠ []
  whole : ∀ c ∈ n.whole, isDigit c = true
  fraction : ∀ c ∈ n.fraction, isDigit c = true
  power : n.power = none

theorem takeFraction_of_breaks {rest : List Char} (h : Breaks rest) :
    takeFraction rest = ([], rest) := by
  cases rest with
  | nil => rfl
  | cons c rest =>
    have hpoint := (h c (by simp)).2
    unfold takeFraction
    split
    · rename_i heq
      exact absurd (List.cons.inj heq).1 hpoint
    · rfl

/-- A point and digits are taken as a fraction, all digits of it. -/
theorem takeFraction_point {fraction rest : List Char} (hne : fraction ≠ [])
    (hdigits : ∀ c ∈ fraction, isDigit c = true) (hrest : Breaks rest) :
    takeFraction ('.' :: (fraction ++ rest)) = (fraction, rest) := by
  obtain ⟨htake, hdrop⟩ := takeWhile_run hdigits hrest.not_digit
  unfold takeFraction
  simp only [htake, hdrop]

theorem takePower_of_breaks {rest : List Char} (h : Breaks rest) : takePower rest = (none, rest) := by
  cases rest with
  | nil => rfl
  | cons c rest =>
    have hclass := (h c (by simp)).1
    have hmark : ¬ (c = 'e' ∨ c = 'E') := by
      rintro (rfl | rfl) <;> exact absurd hclass (by decide)
    simp only [takePower, if_neg hmark]

/-- **A numeral is taken off whole** where what follows cannot extend it. -/
theorem take_text {n : Numeral} (h : n.Plain) {rest : List Char} (hrest : Breaks rest) :
    take (n.text ++ rest) = some (n, rest) := by
  obtain ⟨whole, fraction, power⟩ := n
  obtain ⟨hne, hwhole, hfraction, hpower⟩ := h
  simp only at hne hwhole hfraction hpower
  subst hpower
  have htext : text ⟨whole, fraction, none⟩ ++ rest = whole ++ (fractionText fraction ++ rest) := by
    simp [text]
  -- the fraction, if there is one, starts with a point, which ends the digits before it
  have hafter : ∀ c ∈ (fractionText fraction ++ rest).head?, isDigit c = false := by
    unfold fractionText
    split_ifs with hf
    · exact hrest.not_digit
    · intro c hc
      obtain rfl : '.' = c := by simpa using hc
      decide
  have hpart : takeFraction (fractionText fraction ++ rest) = (fraction, rest) := by
    unfold fractionText
    split_ifs with hf
    · rw [hf]
      exact takeFraction_of_breaks hrest
    · exact takeFraction_point hf hfraction hrest
  obtain ⟨htake, hdrop⟩ := takeWhile_run hwhole hafter
  unfold take
  simp only [htext, htake, hdrop, hpart, takePower_of_breaks hrest]
  rw [if_neg fun hc => hne hc.1]

end Numeral

/-! ## Decimals -/

namespace Decimal

/-- The numeral that a decimal is written as in plain style. -/
def numeral (d : Decimal) : Numeral :=
  let ds := d.digits
  if 0 ≤ d.exponent then ⟨ds ++ List.replicate d.exponent.toNat '0', [], none⟩
  else
    let places := (-d.exponent).toNat
    if places < ds.length then ⟨ds.take (ds.length - places), ds.drop (ds.length - places), none⟩
    else ⟨['0'], List.replicate (places - ds.length) '0' ++ ds, none⟩

theorem isDigit_of_mem_digits {d : Decimal} {c : Char} (h : c ∈ d.digits) : isDigit c = true :=
  isDigit_of_mem_toDigits h

/-- The numeral of a decimal has digits, perhaps a fraction, and no power of ten. -/
theorem numeral_plain (d : Decimal) : d.numeral.Plain := by
  have hzero : ∀ k, ∀ c ∈ List.replicate k '0', isDigit c = true := by
    intro k c hc
    rw [(List.mem_replicate.mp hc).2]
    decide
  have hne : d.digits ≠ [] := Nat.toDigits_ne_nil
  unfold numeral
  dsimp only
  split_ifs with hexponent hplaces
  · refine ⟨by simp [hne], fun c hc => ?_, by simp, rfl⟩
    rcases List.mem_append.mp hc with hc | hc
    · exact isDigit_of_mem_digits hc
    · exact hzero _ c hc
  · refine ⟨?_, fun c hc => isDigit_of_mem_digits (List.mem_of_mem_take hc),
      fun c hc => isDigit_of_mem_digits (List.mem_of_mem_drop hc), rfl⟩
    rw [Ne, List.take_eq_nil_iff]
    rintro (hlen | hnil)
    · omega
    · exact hne hnil
  · refine ⟨by simp, fun c hc => ?_, fun c hc => ?_, rfl⟩
    · rw [List.mem_singleton.mp hc]
      decide
    · rcases List.mem_append.mp hc with hc | hc
      · exact hzero _ c hc
      · exact isDigit_of_mem_digits hc

theorem toList_positionalText (d : Decimal) :
    (Style.plain.positionalText d).toList = d.numeral.text := by
  have hne : d.digits ≠ [] := Nat.toDigits_ne_nil
  unfold Style.positionalText numeral
  dsimp only
  by_cases hexponent : 0 ≤ d.exponent
  · rw [if_pos hexponent, if_pos hexponent]
    simp [Style.plain, Numeral.text, Numeral.fractionText]
  rw [if_neg hexponent, if_neg hexponent]
  by_cases hplaces : (-d.exponent).toNat < d.digits.length
  · have hfraction : d.digits.drop (d.digits.length - (-d.exponent).toNat) ≠ [] := by
      rw [Ne, List.drop_eq_nil_iff]
      omega
    rw [if_pos hplaces, if_pos hplaces, Numeral.text, Numeral.fractionText, if_neg hfraction]
    simp
  · have hfraction : List.replicate ((-d.exponent).toNat - d.digits.length) '0' ++ d.digits ≠ [] := by
      simp [hne]
    rw [if_neg hplaces, if_neg hplaces, Numeral.text, Numeral.fractionText, if_neg hfraction]
    simp

/-- **The numeral denotes the decimal**: the ratio is the same. -/
theorem numeral_value (d : Decimal) :
    d.numeral.value.num = d.num ∧ d.numeral.value.den = d.den := by
  have hdigits : ofDigits d.digits = d.coefficient := ofDigits_toDigits d.coefficient
  unfold numeral
  dsimp only
  split_ifs with hexponent hplaces
  · have hdown : (-d.exponent).toNat = 0 := by omega
    simp [Numeral.value, num, den, ofDigits_append_zeros, hdigits, hdown]
  · -- the digits after the point are as many as the exponent says
    have hvalue : Numeral.value ⟨d.digits.take (d.digits.length - (-d.exponent).toNat),
        d.digits.drop (d.digits.length - (-d.exponent).toNat), none⟩ = d := by
      have hcount : (d.digits.drop (d.digits.length - (-d.exponent).toNat)).length
          = (-d.exponent).toNat := by
        rw [List.length_drop]
        omega
      simp only [Numeral.value, List.take_append_drop, hdigits, hcount, Option.map_none,
        Option.getD_none]
      cases d
      simp only [mk.injEq, true_and]
      simp only at hexponent
      omega
    rw [hvalue]
    exact ⟨rfl, rfl⟩
  · have hvalue : Numeral.value ⟨['0'],
        List.replicate ((-d.exponent).toNat - d.digits.length) '0' ++ d.digits, none⟩ = d := by
      have hzeros : ['0'] ++ (List.replicate ((-d.exponent).toNat - d.digits.length) '0' ++ d.digits)
          = List.replicate ((-d.exponent).toNat - d.digits.length + 1) '0' ++ d.digits := by
        rw [List.replicate_succ]
        rfl
      simp only [Numeral.value, hzeros, ofDigits_zeros_append, hdigits, Option.map_none,
        Option.getD_none, List.length_append, List.length_replicate]
      cases d
      simp only [mk.injEq, true_and] at *
      omega
    rw [hvalue]
    exact ⟨rfl, rfl⟩

end Decimal

/-! ## Words -/

section Words

variable {l : Layout} {word : Nat}

/-- **The text of a finite word is a numeral that is read as the word.** -/
theorem exists_numeral_of_magnitudeText (heven : l.binade % 2 = 0) (hfin : word < l.infinity) :
    ∃ n : Numeral, n.Plain ∧ (Style.plain.magnitudeText l word).toList = n.text
      ∧ n.value.nearest l = word := by
  have hnan : ¬ l.infinity < word := by omega
  have hinf : word ≠ l.infinity := by omega
  unfold Style.magnitudeText
  rw [if_neg hnan, if_neg hinf]
  split_ifs with hzero
  · have hdigit : ∀ c ∈ ['0'], isDigit c = true := by
      intro c hc
      rw [List.mem_singleton.mp hc]
      decide
    refine ⟨⟨['0'], [], none⟩, ⟨by simp, hdigit, by simp, rfl⟩, rfl, ?_⟩
    simp [Decimal.nearest, Numeral.value, ofDigits, hzero]
  · set d := l.shortest word
    obtain ⟨hnum, hden⟩ := d.numeral_value
    refine ⟨d.numeral, d.numeral_plain, d.toList_positionalText, ?_⟩
    refine Decimal.nearest_eq_of_rounds heven hfin ?_
    rw [hnum, hden]
    exact l.rounds_shortest word

/-- The text of a finite word is taken off whole and read as the word. -/
theorem take_magnitudeText (heven : l.binade % 2 = 0) (hfin : word < l.infinity)
    {rest : List Char} (hrest : Breaks rest) :
    ∃ n : Numeral, n.text = (Style.plain.magnitudeText l word).toList
      ∧ Numeral.take ((Style.plain.magnitudeText l word).toList ++ rest) = some (n, rest)
      ∧ n.value.nearest l = word := by
  obtain ⟨n, hplain, htext, hvalue⟩ := exists_numeral_of_magnitudeText heven hfin
  refine ⟨n, htext.symm, ?_, hvalue⟩
  rw [htext]
  exact Numeral.take_text hplain hrest

end Words

/-! ## Signs -/

/-- Rounding goes no further than infinity, so never to a NaN. -/
theorem Decimal.nearest_le_infinity (d : Decimal) (l : Layout) : d.nearest l ≤ l.infinity := by
  unfold Decimal.nearest
  split
  · exact Nat.zero_le _
  split
  · exact Nat.le_refl _
  · exact Nat.min_le_left _ _

namespace Double

theorem even_binade : Layout.double.binade % 2 = 0 := by decide

theorem infinity_lt_signBit : Layout.double.infinity < signBit := by decide

theorem magnitude_lt (x : Double) : x.magnitude < signBit := Nat.mod_lt _ (by decide)

/-- A number is its sign and its magnitude. -/
theorem ofMagnitude_magnitude (x : Double) : ofMagnitude x.isNegative x.magnitude = x := by
  obtain ⟨bits⟩ := x
  have hlt := bits.toNat_lt
  have hbits : (if signBit ≤ bits.toNat then signBit + bits.toNat % signBit
      else bits.toNat % signBit) = bits.toNat := by
    unfold signBit
    split_ifs <;> omega
  simp only [ofMagnitude, isNegative, magnitude, decide_eq_true_eq, hbits, UInt64.ofNat_toNat]

/-- The bits of a number are its magnitude, with the sign bit above. -/
theorem toNat_bits_ofMagnitude (negative : Bool) {word : Nat} (h : word < signBit) :
    (ofMagnitude negative word).bits.toNat = if negative then signBit + word else word := by
  simp only [ofMagnitude, UInt64.toNat_ofNat']
  unfold signBit at *
  split_ifs <;> omega

theorem magnitude_ofMagnitude (negative : Bool) {word : Nat} (h : word < signBit) :
    (ofMagnitude negative word).magnitude = word := by
  rw [magnitude, toNat_bits_ofMagnitude negative h]
  split_ifs
  · rw [Nat.add_mod_left, Nat.mod_eq_of_lt h]
  · exact Nat.mod_eq_of_lt h

theorem isNegative_ofMagnitude (negative : Bool) {word : Nat} (h : word < signBit) :
    (ofMagnitude negative word).isNegative = negative := by
  rw [isNegative, toNat_bits_ofMagnitude negative h]
  cases negative with
  | true => simp
  | false => simpa using h

/-- To negate is to flip the sign and to keep the magnitude. -/
theorem neg_ofMagnitude (negative : Bool) {word : Nat} (h : word < signBit) :
    (ofMagnitude negative word).neg = ofMagnitude (!negative) word := by
  rw [neg, isNegative_ofMagnitude negative h, magnitude_ofMagnitude negative h]

/-- Numbers without a sign are equal if they have one value: only the zeros have two words. -/
theorem eq_of_agrees {x y : Double} (hx : x.isNegative = false) (hy : y.isNegative = false)
    (h : x.agrees y = true) : x = y := by
  simp only [agrees, isZero, Bool.and_eq_true, Bool.or_eq_true, beq_iff_eq] at h
  rcases h.2 with heq | ⟨hzero, hzero'⟩
  · exact heq
  · rw [← ofMagnitude_magnitude x, ← ofMagnitude_magnitude y, hx, hy, hzero, hzero']

/-! ## Texts of numbers -/

/-- The text of a number is a minus sign if it is negative, and the text of its magnitude. -/
theorem toList_text (x : Double) (h : x.isNaN = false) :
    x.text.toList = (if x.isNegative then ['-'] else [])
      ++ (Style.plain.magnitudeText .double x.magnitude).toList := by
  have hle : x.magnitude ≤ Layout.double.infinity := by simpa [isNaN] using h
  unfold text Style.text
  rw [String.toList_append]
  congr 1
  simp only [hle, decide_true, Bool.and_true]
  split_ifs <;> rfl

/-- A word that is a number can be told from its text. -/
theorem magnitudeText_injective {w w' : Nat} (hw : w ≤ Layout.double.infinity)
    (hw' : w' ≤ Layout.double.infinity)
    (h : Style.plain.magnitudeText .double w = Style.plain.magnitudeText .double w') : w = w' := by
  -- infinity is no numeral
  have hinf : ∀ v, v < Layout.double.infinity →
      Style.plain.magnitudeText .double v
        ≠ Style.plain.magnitudeText .double Layout.double.infinity := by
    intro v hv heq
    obtain ⟨n, _, htake, _⟩ := take_magnitudeText even_binade hv breaks_nil
    have htext : Style.plain.magnitudeText .double Layout.double.infinity = "inf" := by
      simp [Style.magnitudeText]
    have hnone : Numeral.take ("inf".toList ++ []) = none := rfl
    rw [heq, htext, hnone] at htake
    exact absurd htake (by simp)
  rcases Nat.lt_or_eq_of_le hw with hlt | rfl
  · rcases Nat.lt_or_eq_of_le hw' with hlt' | rfl
    · obtain ⟨n, _, htake, hvalue⟩ := take_magnitudeText even_binade hlt breaks_nil
      obtain ⟨n', _, htake', hvalue'⟩ := take_magnitudeText even_binade hlt' breaks_nil
      rw [h, htake'] at htake
      obtain ⟨rfl, _⟩ := Prod.mk.inj (Option.some.inj htake)
      exact hvalue.symm.trans hvalue'
    · exact absurd h (hinf w hlt)
  · rcases Nat.lt_or_eq_of_le hw' with hlt' | rfl
    · exact absurd h.symm (hinf w' hlt')
    · rfl

/-- The characters of a number are digits, letters, points and signs. -/
theorem mem_magnitudeText {w : Nat} (hw : w ≤ Layout.double.infinity) :
    ∀ c ∈ (Style.plain.magnitudeText .double w).toList, isLetterOrDigit c = true ∨ c = '.' := by
  intro c hc
  rcases Nat.lt_or_eq_of_le hw with hlt | rfl
  · obtain ⟨n, hplain, htext, _⟩ := exists_numeral_of_magnitudeText even_binade hlt
    have hdigit : ∀ c, isDigit c = true → isLetterOrDigit c = true := by
      intro c hc
      rw [isLetterOrDigit, hc, Bool.or_true]
    rw [htext, Numeral.text, hplain.power] at hc
    simp only [Option.map_none, Option.getD_none, List.append_nil, List.mem_append] at hc
    rcases hc with hc | hc
    · exact Or.inl (hdigit c (hplain.whole c hc))
    · unfold Numeral.fractionText at hc
      split_ifs at hc
      · exact absurd hc List.not_mem_nil
      · rcases List.mem_cons.mp hc with hc | hc
        · exact Or.inr hc
        · exact Or.inl (hdigit c (hplain.fraction c hc))
  · have htext : Style.plain.magnitudeText .double Layout.double.infinity = "inf" := by
      simp [Style.magnitudeText]
    have hall : "inf".toList.all isLetterOrDigit = true := by decide
    rw [htext] at hc
    exact Or.inl (List.all_eq_true.mp hall c hc)

/-- **A number can be told from its text**, unless it is a NaN. -/
theorem text_injective {x y : Double} (hx : x.isNaN = false) (hy : y.isNaN = false)
    (h : x.text = y.text) : x = y := by
  have hmx : x.magnitude ≤ Layout.double.infinity := by simpa [isNaN] using hx
  have hmy : y.magnitude ≤ Layout.double.infinity := by simpa [isNaN] using hy
  have hlist := congrArg String.toList h
  rw [toList_text x hx, toList_text y hy] at hlist
  -- no magnitude starts with a sign
  have hsign : ∀ w, w ≤ Layout.double.infinity → ∀ cs,
      (Style.plain.magnitudeText .double w).toList ≠ '-' :: cs := by
    intro w hw cs heq
    have hmem := mem_magnitudeText hw '-' (by rw [heq]; exact List.mem_cons_self)
    exact absurd hmem (by decide)
  rw [← ofMagnitude_magnitude x, ← ofMagnitude_magnitude y]
  cases hnx : x.isNegative <;> cases hny : y.isNegative <;> rw [hnx, hny] at hlist
  · rw [magnitudeText_injective hmx hmy (String.toList_inj.mp (by simpa using hlist))]
  · exact absurd hlist (hsign _ hmx _)
  · exact absurd hlist.symm (hsign _ hmy _)
  · rw [magnitudeText_injective hmx hmy (String.toList_inj.mp (by simpa using hlist))]

/-! ## Whole numbers -/

/-- The units of a number that is worth an integer. -/
theorem IsInt.units {x : Double} {n : Int} (h : x.IsInt n) :
    Layout.double.units x.magnitude = n.natAbs * Nat.pow 2 Layout.double.scale := by
  obtain ⟨_, hvalue⟩ := h
  have hpos : ∀ k, 0 < Nat.pow 2 k := Nat.two_pow_pos
  have hpos := hpos Layout.double.scale
  unfold value at hvalue
  rw [two_pow_eq_cast] at hvalue
  generalize Nat.pow 2 Layout.double.scale = one at hpos hvalue ⊢
  rw [signed_div_eq_iff hpos] at hvalue
  obtain ⟨hmod, hdiv⟩ := hvalue
  have hquot : n.natAbs = Layout.double.units x.magnitude / one := by
    generalize Layout.double.units x.magnitude / one = q at hdiv
    split_ifs at hdiv <;> omega
  rw [hquot]
  exact (Nat.div_mul_cancel (Nat.dvd_of_mod_eq_zero hmod)).symm

/-- A word that is worth a natural number is worth an integer with either sign. -/
theorem isInt_ofMagnitude {word n : Nat} (hfin : word < Layout.double.infinity)
    (h : Layout.double.units word = n * Nat.pow 2 Layout.double.scale) (negative : Bool) :
    (ofMagnitude negative word).IsInt (if negative then -(n : Int) else n) := by
  have hlt := hfin.trans infinity_lt_signBit
  have hpos : ∀ k, 0 < Nat.pow 2 k := Nat.two_pow_pos
  have hpos := hpos Layout.double.scale
  refine ⟨by simpa [isFinite, magnitude_ofMagnitude negative hlt] using hfin, ?_⟩
  unfold value
  rw [isNegative_ofMagnitude negative hlt, magnitude_ofMagnitude negative hlt, h, two_pow_eq_cast]
  generalize Nat.pow 2 Layout.double.scale = one at hpos ⊢
  rw [signed_div_eq_iff hpos, Nat.mul_mod_left, Nat.mul_div_cancel _ hpos]
  exact ⟨rfl, rfl⟩

theorem isInt_zero : zero.IsInt 0 := by
  have hunits : Layout.double.units 0 = 0 * Nat.pow 2 Layout.double.scale := by
    rw [Layout.units_zero, Nat.zero_mul]
  exact isInt_ofMagnitude (by decide) hunits false

/-- **The decimal of a whole number is read as that number**, if any number is worth it. -/
theorem isInt_toDouble {x : Double} {n : Int} (h : x.IsInt n) :
    ((⟨n.natAbs, 0⟩ : Decimal).toDouble false).IsInt n.natAbs := by
  have hfin : x.magnitude < Layout.double.infinity := by simpa [isFinite] using h.1
  have hunits := h.units
  unfold Decimal.toDouble
  have hnearest : Decimal.nearest Layout.double ⟨n.natAbs, 0⟩ = x.magnitude := by
    refine Decimal.nearest_eq_of_rounds even_binade hfin (Layout.rounds_of_eq ?_ ?_)
    · exact Decimal.den_pos _
    · rw [hunits]
      simp [Decimal.num, Decimal.den]
  rw [hnearest]
  exact isInt_ofMagnitude hfin hunits false

/-- The negative of a whole number is one, and has the negative value. -/
theorem IsInt.neg {x : Double} {n : Int} (h : x.IsInt n) : x.neg.IsInt (-n) := by
  obtain ⟨hfin, hvalue⟩ := h
  have hlt := x.magnitude_lt
  unfold Double.neg
  refine ⟨by simpa [isFinite, magnitude_ofMagnitude _ hlt] using hfin, ?_⟩
  unfold value at *
  rw [isNegative_ofMagnitude _ hlt, magnitude_ofMagnitude _ hlt, Int.cast_neg, ← hvalue]
  cases x.isNegative <;> simp

end Double

end Stencil
