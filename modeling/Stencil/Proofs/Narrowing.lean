import Mathlib
import Stencil.Proofs.Literals
import Stencil.Proofs.WholeNumbers

/-!
# Literals denote narrowed constants

What it is to be rounded is said of rationals here: no word is nearer, and of two equally near words
the even one is taken (`Layout.IsNearestEven`). Exponents have no bound in this, so that a number
that is too large is rounded to a word from infinity on. The midpoints between neighbours say the
same (`isNearestEven_iff_rounds`).

In these words, `Width.Narrows` says what a constant is as an element, and `Width.Denotes` what an
expression of generated code denotes. Both have one answer for each constant, and it is the same one
(`Width.literal_denotes_narrowed`).

Neither of the two is defined by the functions that narrow a constant or read a literal. They speak
of values and of nearness, and the functions are shown to meet them: narrowing in `narrows_element`,
writing in `denotes_literal`. That there is one answer only (`IsNearestEven.unique`,
`Denotes.unique`) is what makes them specifications.

Three kinds of elements are told apart. A NaN and an infinity are written by name, and are the only
texts that denote them; a finite constant can become infinite when it is narrowed, from a limit on
that is computed exactly (`single_limit`).
-/

namespace Stencil

/-! ## The nearest word -/

namespace Layout

/-- What a word is worth, if exponents have no bound. -/
def value (l : Layout) (word : Nat) : ℚ := l.units word / 2 ^ l.scale

/-- **No word is nearer to the rational**, and the word is even if another one is as near. -/
structure IsNearestEven (l : Layout) (word : Nat) (r : ℚ) : Prop where
  nearest : ∀ w, |l.value word - r| ≤ |l.value w - r|
  even : ∀ w, w ≠ word → |l.value w - r| = |l.value word - r| → word % 2 = 0

variable {l : Layout} {word word' : Nat} {r : ℚ}

/-- Of two words the larger one has the larger value, so that words can be compared instead of
    rationals. -/
theorem value_strictMono (l : Layout) : StrictMono l.value := by
  intro a b hlt
  have hunits : (l.units a : ℚ) < l.units b := by exact_mod_cast l.units_strictMono hlt
  exact div_lt_div_of_pos_right hunits (by positivity)

/-- Two different words that are equally near to a number have it in their middle. -/
theorem value_add_value (hne : word ≠ word') (h : |l.value word - r| = |l.value word' - r|) :
    l.value word + l.value word' = 2 * r := by
  rcases abs_eq_abs.mp h with hsub | hsub
  · exact absurd (l.value_strictMono.injective (sub_left_injective hsub)) hne
  · linarith

/-- Two nearest words would be neighbours, and both even. -/
theorem IsNearestEven.not_lt (h : l.IsNearestEven word r) (h' : l.IsNearestEven word' r) :
    ¬ word < word' := by
  intro hlt
  have hvalue := l.value_strictMono hlt
  have hsame : |l.value word - r| = |l.value word' - r| :=
    le_antisymm (h.nearest word') (h'.nearest word)
  have hmiddle := value_add_value hlt.ne hsame
  rcases Nat.lt_or_eq_of_le (Nat.succ_le_of_lt hlt) with hbetween | hnext
  · -- a word between the two is nearer than they are
    have hlow := l.value_strictMono (Nat.lt_succ_self word)
    have hhigh := l.value_strictMono hbetween
    have hnear := h.nearest (word + 1)
    have hfar : |l.value word - r| = (l.value word' - l.value word) / 2 := by
      rw [abs_of_nonpos (by linarith)]
      linarith
    have hnearer : |l.value (word + 1) - r| < (l.value word' - l.value word) / 2 := by
      rw [abs_lt]
      constructor <;> linarith
    linarith
  · have heven := h.even word' hlt.ne' hsame.symm
    have heven' := h'.even word hlt.ne hsame
    omega

/-- **There is one nearest word**, since of two equally near ones just one is even. -/
theorem IsNearestEven.unique (h : l.IsNearestEven word r) (h' : l.IsNearestEven word' r) :
    word = word' :=
  le_antisymm (Nat.le_of_not_lt (h'.not_lt h)) (Nat.le_of_not_lt (h.not_lt h'))

/-- Rounding between midpoints gives the nearest word, and at a midpoint the even one. -/
theorem Rounds.isNearestEven {num den : Nat} (h : l.Rounds word (num * 2 ^ l.scale) den)
    (hden : 0 < den) : l.IsNearestEven word (num / den) := by
  refine ⟨fun w => h.abs_sub_le hden w, ?_⟩
  intro w hne hsame
  have hmono := l.units_strictMono
  have hsum := value_add_value hne hsame
  have hmiddle : (l.units w + l.units word) * den = 2 * (num * 2 ^ l.scale) := by
    have hscale : (2 : ℚ) ^ l.scale ≠ 0 := by positivity
    have hden : (den : ℚ) ≠ 0 := by exact_mod_cast hden.ne'
    unfold value at hsum
    rw [← add_div, ← mul_div_assoc, div_eq_div_iff hscale hden, mul_assoc] at hsum
    exact_mod_cast hsum
  rcases Nat.lt_or_gt_of_ne hne with hlt | hgt
  · apply h.even_low
    apply le_antisymm h.low
    rw [← hmiddle]
    exact Nat.mul_le_mul_right den (Nat.add_le_add_right (hmono.monotone (by omega)) _)
  · apply h.even_high
    apply le_antisymm h.high
    rw [← hmiddle, Nat.add_comm (l.units w)]
    exact Nat.mul_le_mul_right den (Nat.add_le_add_left (hmono.monotone (by omega)) _)

/-- **Nearest and even is what rounding at midpoints gives**, for a fraction whose terms are natural
    numbers. -/
theorem isNearestEven_iff_rounds (heven : l.binade % 2 = 0) {num den : Nat} (hden : 0 < den) :
    l.IsNearestEven word (num / den) ↔ l.Rounds word (num * 2 ^ l.scale) den := by
  constructor
  · intro h
    obtain ⟨word', hrounds, _⟩ := exists_rounds heven num hden
    exact h.unique (hrounds.isNearestEven hden) ▸ hrounds
  · exact fun h => h.isNearestEven hden

/-- What a word is worth is nearest to it. -/
theorem isNearestEven_value (l : Layout) (word : Nat) : l.IsNearestEven word (l.value word) := by
  refine ⟨fun w => ?_, fun w hne hsame => ?_⟩
  · rw [sub_self, abs_zero]
    exact abs_nonneg _
  · rw [sub_self, abs_zero, abs_eq_zero, sub_eq_zero] at hsame
    exact absurd (l.value_strictMono.injective hsame) hne

/-- **Above an odd word** are the rationals from the middle to the next word on. -/
theorem IsNearestEven.lt_iff (h : l.IsNearestEven word r) {w : Nat} (hodd : w % 2 = 1) :
    w < word ↔ (l.value w + l.value (w + 1)) / 2 ≤ r := by
  have hstep := l.value_strictMono (Nat.lt_succ_self w)
  constructor
  · intro hlt
    by_contra hbelow
    have hword := l.value_strictMono.monotone (Nat.succ_le_of_lt hlt)
    have hnear := h.nearest w
    have hfar := le_abs_self (l.value word - r)
    have hnearer : |l.value w - r| < l.value (w + 1) - r := by
      rw [abs_lt]
      constructor <;> linarith
    linarith
  · intro hle
    by_contra hnot
    have hword := l.value_strictMono.monotone (Nat.le_of_not_lt hnot)
    have hnear := h.nearest (w + 1)
    have hfar : r - l.value word ≤ |l.value word - r| := by
      rw [abs_sub_comm]
      exact le_abs_self _
    have hnearer : |l.value (w + 1) - r| ≤ r - l.value w := by
      rw [abs_le]
      constructor <;> linarith
    -- only the odd word itself can be as near as the next one
    have hsame : l.value w = l.value word := by linarith
    obtain rfl := l.value_strictMono.injective hsame
    have heven := h.even (w + 1) (Nat.succ_ne_self w) (by linarith)
    omega

end Layout

/-! ## Elements -/

/-- A value of the element type. A finite one is given by its sign and its word. -/
inductive Element where
  | finite (negative : Bool) (word : Nat)
  | infinite (negative : Bool)
  | nan
  deriving DecidableEq

/-- The sign and the word of a finite element. -/
def Element.finite? : Element → Option (Bool × Nat)
  | finite negative word => some (negative, word)
  | _ => none

theorem Double.isNaN_or_isInfinite_or_isFinite (v : Double) :
    v.isNaN = true ∨ v.isInfinite = true ∨ v.isFinite = true := by
  simp only [isNaN, isInfinite, isFinite, decide_eq_true_eq, beq_iff_eq]
  omega

namespace Width

/-- **What a constant is as an element**: the nearest one, which keeps the sign of the constant, also of
    one that becomes zero. It is infinite if the nearest word is none of a finite element. -/
inductive Narrows (w : Width) (v : Double) : Element → Prop where
  | finite (word : Nat) (hfin : v.isFinite = true)
      (hnearest : w.layout.IsNearestEven word |v.value|) (hlt : word < w.layout.infinity) :
      Narrows w v (.finite v.isNegative word)
  | overflow (word : Nat) (hfin : v.isFinite = true)
      (hnearest : w.layout.IsNearestEven word |v.value|) (hle : w.layout.infinity ≤ word) :
      Narrows w v (.infinite v.isNegative)
  | infinite (hinf : v.isInfinite = true) : Narrows w v (.infinite v.isNegative)
  | nan (hnan : v.isNaN = true) : Narrows w v .nan

/-- **What an expression of generated code denotes.** A literal has a point or a power of ten, and the
    letter `f` behind it for elements of four bytes. It denotes the element nearest to its numeral, which
    must be finite. A minus in front of an expression turns its sign. -/
inductive Denotes (w : Width) : String → Element → Prop where
  | literal (text : String) (negative : Bool) (n : Numeral) (word : Nat) (hspelled : n.Spelled)
      (hmarked : n.fraction ≠ [] ∨ n.power ≠ none)
      (htext : text.toList = (if negative then ['-'] else [])
        ++ (n.text ++ if w = .single then ['f'] else []))
      (hnearest : w.layout.IsNearestEven word n.value.rational) (hlt : word < w.layout.infinity) :
      Denotes w text (.finite negative word)
  | infinity (negative : Bool) :
      Denotes w ((if negative then "-" else "") ++ "std::numeric_limits<real_t>::infinity()")
        (.infinite negative)
  | nan : Denotes w "std::numeric_limits<real_t>::quiet_NaN()" .nan

/-- The element that narrowing gives. -/
def element (w : Width) (v : Double) : Element :=
  if w.layout.infinity < w.narrow v then .nan
  else if w.narrow v = w.layout.infinity then .infinite v.isNegative
  else .finite v.isNegative (w.narrow v)

variable {w : Width} {v : Double} {x y : Element}

/-! ### Narrowing -/

theorem infinity_lt_narrow (w : Width) (h : v.isNaN = true) : w.layout.infinity < w.narrow v := by
  cases w with
  | single =>
    rw [narrow, if_pos h]
    exact Nat.lt_succ_self _
  | double =>
    have hword : Layout.double.infinity < v.magnitude := by simpa [Double.isNaN] using h
    exact hword

theorem narrow_eq_infinity (w : Width) (h : v.isInfinite = true) :
    w.narrow v = w.layout.infinity := by
  have hword : v.magnitude = Layout.double.infinity := by simpa [Double.isInfinite] using h
  cases w with
  | single =>
    have hnan : ¬ v.isNaN = true := by simp [Double.isNaN, hword]
    rw [narrow, if_neg hnan, if_pos h]
    rfl
  | double => exact hword

/-- **A finite constant is narrowed to the nearest word**, or to infinity. -/
theorem exists_isNearestEven (w : Width) (h : v.isFinite = true) :
    ∃ word, w.layout.IsNearestEven word |v.value| ∧ w.narrow v = min w.layout.infinity word := by
  have hlt : v.magnitude < Layout.double.infinity := by simpa [Double.isFinite] using h
  cases w with
  | single =>
    have hnan : ¬ v.isNaN = true := by simp [Double.isNaN]; omega
    have hinf : ¬ v.isInfinite = true := by simp [Double.isInfinite]; omega
    have hpos : ∀ k, 0 < Nat.pow 2 k := Nat.two_pow_pos
    have hpos := hpos Layout.double.scale
    obtain ⟨word, hrounds, hnearest⟩ := Layout.exists_rounds single.even_binade
      (Layout.double.units v.magnitude) hpos
    have hvalue : |v.value| = (Layout.double.units v.magnitude : ℚ)
        / (Nat.pow 2 Layout.double.scale : Nat) := by
      rw [Double.abs_value, Double.two_pow_eq_cast]
    refine ⟨word, ?_, ?_⟩
    · rw [hvalue]
      exact hrounds.isNearestEven hpos
    · rw [narrow, if_neg hnan, if_neg hinf]
      exact hnearest
  | double =>
    refine ⟨v.magnitude, ?_, (Nat.min_eq_right hlt.le).symm⟩
    rw [Double.abs_value]
    exact Layout.isNearestEven_value .double v.magnitude

/-- **Narrowing meets its specification**, for every constant. -/
theorem narrows_element (w : Width) (v : Double) : w.Narrows v (w.element v) := by
  unfold element
  rcases v.isNaN_or_isInfinite_or_isFinite with hnan | hinf | hfin
  · rw [if_pos (infinity_lt_narrow w hnan)]
    exact .nan hnan
  · have hword := narrow_eq_infinity w hinf
    rw [if_neg hword.not_gt, if_pos hword]
    exact .infinite hinf
  · obtain ⟨word, hnearest, hword⟩ := exists_isNearestEven w hfin
    rw [if_neg (by omega)]
    by_cases hover : w.layout.infinity ≤ word
    · rw [if_pos (by omega)]
      exact .overflow word hfin hnearest hover
    · have heq : w.narrow v = word := by omega
      rw [if_neg (by omega), heq]
      exact .finite word hfin hnearest (by omega)

/-- **A constant narrows to one element only**, the one that narrowing gives. -/
theorem narrows_iff : w.Narrows v x ↔ x = w.element v := by
  constructor
  · intro h
    unfold element
    cases h with
    | finite word hfin hnearest hlt =>
      obtain ⟨word', hnearest', hword⟩ := exists_isNearestEven w hfin
      obtain rfl := hnearest.unique hnearest'
      rw [Nat.min_eq_right hlt.le] at hword
      rw [hword, if_neg hlt.not_gt, if_neg hlt.ne]
    | overflow word hfin hnearest hle =>
      obtain ⟨word', hnearest', hword⟩ := exists_isNearestEven w hfin
      obtain rfl := hnearest.unique hnearest'
      rw [Nat.min_eq_left hle] at hword
      rw [if_neg hword.not_gt, if_pos hword]
    | infinite hinf =>
      have hword := narrow_eq_infinity w hinf
      rw [if_neg hword.not_gt, if_pos hword]
    | nan hnan => rw [if_pos (infinity_lt_narrow w hnan)]
  · rintro rfl
    exact w.narrows_element v

/-! ### Expressions -/

theorem toList_literalSuffix (w : Width) :
    w.literalSuffix.toList = if w = .single then ['f'] else [] := by
  cases w <;> rfl

/-- For a decimal that has been read, to be the nearest word is to round its digits. -/
theorem isNearestEven_rational_iff (w : Width) (d : Decimal) {word : Nat} :
    w.layout.IsNearestEven word d.rational
      ↔ w.layout.Rounds word (d.num * 2 ^ w.layout.scale) d.den := by
  rw [d.rational_eq]
  exact Layout.isNearestEven_iff_rounds w.even_binade d.den_pos

/-- Reading a literal gives what it denotes, and nothing for what is no literal. -/
theorem Denotes.readLiteral?_eq {text : String} (h : w.Denotes text x) :
    w.readLiteral? text = x.finite? := by
  cases h with
  | literal _ negative n word hspelled hmarked htext hnearest hlt =>
    have hrounds := (isNearestEven_rational_iff w n.value).mp hnearest
    rw [← toList_literalSuffix] at htext
    rw [w.readLiteral?_signed negative hspelled hmarked htext,
      Decimal.nearest_eq_of_rounds w.even_binade hlt hrounds]
    rfl
  | infinity negative => cases negative <;> rfl
  | nan => rfl

theorem Denotes.text_of_infinite {text : String} {negative : Bool}
    (h : w.Denotes text (.infinite negative)) :
    text = (if negative then "-" else "") ++ "std::numeric_limits<real_t>::infinity()" := by
  cases h
  rfl

theorem Denotes.text_of_nan {text : String} (h : w.Denotes text .nan) :
    text = "std::numeric_limits<real_t>::quiet_NaN()" := by
  cases h
  rfl

/-- The names of infinity and of no number, and the sign, tell elements apart. -/
theorem infinity_text_injective {negative negative' : Bool}
    (h : (if negative then "-" else "") ++ "std::numeric_limits<real_t>::infinity()"
      = (if negative' then "-" else "") ++ "std::numeric_limits<real_t>::infinity()") :
    negative = negative' := by
  revert h
  cases negative <;> cases negative' <;> decide

theorem infinity_text_ne (negative : Bool) :
    (if negative then "-" else "") ++ "std::numeric_limits<real_t>::infinity()"
      ≠ "std::numeric_limits<real_t>::quiet_NaN()" := by
  cases negative <;> decide

/-- **An expression denotes one element**, whichever of the three kinds it is. -/
theorem Denotes.unique {text : String} (hx : w.Denotes text x) (hy : w.Denotes text y) : x = y := by
  have hread := hx.readLiteral?_eq.symm.trans hy.readLiteral?_eq
  cases x with
  | finite negative word =>
    cases y with
    | finite negative' word' =>
      obtain ⟨rfl, rfl⟩ := Prod.mk.inj (Option.some.inj hread)
      rfl
    | infinite negative' => cases hread
    | nan => cases hread
  | infinite negative =>
    cases y with
    | finite negative' word' => cases hread
    | infinite negative' =>
      rw [infinity_text_injective (hx.text_of_infinite.symm.trans hy.text_of_infinite)]
    | nan => exact absurd (hx.text_of_infinite.symm.trans hy.text_of_nan) (infinity_text_ne _)
  | nan =>
    cases y with
    | finite negative' word' => cases hread
    | infinite negative' =>
      exact absurd (hy.text_of_infinite.symm.trans hx.text_of_nan) (infinity_text_ne _)
    | nan => rfl

/-- **A literal denotes the narrowed constant**: it is read as a decimal that rounds to the same
    word. -/
theorem denotes_literal (w : Width) (v : Double) : w.Denotes (w.literal v) (w.element v) := by
  unfold literal element
  dsimp only
  by_cases hnan : w.layout.infinity < w.narrow v
  · rw [if_pos hnan, if_pos hnan]
    exact .nan
  rw [if_neg hnan, if_neg hnan]
  by_cases hinf : w.narrow v = w.layout.infinity
  · rw [if_pos hinf, if_pos hinf]
    exact .infinity v.isNegative
  · have hfin : w.narrow v < w.layout.infinity := by omega
    obtain ⟨n, hspelled, hmarked, htext, hvalue⟩ := exists_numeral_of_literal w.even_binade hfin
    obtain ⟨word, hrounds, hnearest⟩ := n.value.exists_rounds w.even_binade
    have hword : w.narrow v = word := by omega
    rw [if_neg hinf, if_neg hinf]
    refine .literal _ v.isNegative n (w.narrow v) hspelled hmarked ?_ ?_ hfin
    · rw [Style.text, String.toList_append, String.toList_append, htext, List.append_assoc,
        toList_literalSuffix, decide_eq_true hfin.le, Bool.and_true]
      cases v.isNegative <;> rfl
    · rw [hword]
      exact (isNearestEven_rational_iff w n.value).mpr hrounds

theorem denotes_literal_iff : w.Denotes (w.literal v) x ↔ x = w.element v := by
  constructor
  · exact fun h => h.unique (w.denotes_literal v)
  · rintro rfl
    exact w.denotes_literal v

/-! ### Overflow -/

/-- The middle between the last finite element of four bytes and the next one, if there were one. -/
theorem single_limit (last : Nat) (h : last = Layout.single.infinity - 1) :
    (Layout.single.value last + Layout.single.value (last + 1)) / 2 = 2 ^ 128 - 2 ^ 103 := by
  have hscale : Layout.single.scale = 149 := by decide
  have hlast : Layout.single.units last = (2 ^ 24 - 1) * 2 ^ 253 := by
    rw [h]
    decide
  have hnext : Layout.single.units (last + 1) = 2 ^ 24 * 2 ^ 253 := by
    rw [h]
    decide
  unfold Layout.value
  rw [hscale, hlast, hnext]
  norm_num

/-- **Which finite constants are too large**: with elements of eight bytes none is. -/
theorem infinity_le_iff {word : Nat} (hfin : v.isFinite = true)
    (hnearest : w.layout.IsNearestEven word |v.value|) :
    w.layout.infinity ≤ word ↔ w = .single ∧ 2 ^ 128 - 2 ^ 103 ≤ |v.value| := by
  cases w with
  | single =>
    have hodd : (Layout.single.infinity - 1) % 2 = 1 := by decide
    have hpos : 0 < Layout.single.infinity := by decide
    have hlast : Layout.single.infinity ≤ word ↔ Layout.single.infinity - 1 < word := by omega
    rw [show single.layout = Layout.single from rfl] at hnearest ⊢
    rw [hlast, hnearest.lt_iff hodd, single_limit _ rfl]
    exact (and_iff_right rfl).symm
  | double =>
    have hlt : v.magnitude < Layout.double.infinity := by simpa [Double.isFinite] using hfin
    rw [Double.abs_value] at hnearest
    have hword : word = v.magnitude := hnearest.unique (Layout.isNearestEven_value .double _)
    constructor
    · intro hle
      rw [hword] at hle
      exact absurd hlt (Nat.not_lt.mpr hle)
    · rintro ⟨hsingle, _⟩
      cases hsingle

/-- A constant becomes infinite if it is, or if elements are single and its magnitude reaches the
    limit. -/
theorem narrows_infinite_iff :
    (∃ negative, w.Narrows v (.infinite negative))
      ↔ v.isInfinite = true
        ∨ w = .single ∧ v.isFinite = true ∧ 2 ^ 128 - 2 ^ 103 ≤ |v.value| := by
  constructor
  · rintro ⟨negative, h⟩
    cases h with
    | overflow word hfin hnearest hle =>
      obtain ⟨hsingle, hlimit⟩ := (infinity_le_iff hfin hnearest).mp hle
      exact Or.inr ⟨hsingle, hfin, hlimit⟩
    | infinite hinf => exact Or.inl hinf
  · rintro (hinf | ⟨hsingle, hfin, hlimit⟩)
    · exact ⟨_, .infinite hinf⟩
    · obtain ⟨word, hnearest, _⟩ := exists_isNearestEven w hfin
      exact ⟨_, .overflow word hfin hnearest ((infinity_le_iff hfin hnearest).mpr ⟨hsingle, hlimit⟩)⟩

theorem narrows_nan_iff : w.Narrows v .nan ↔ v.isNaN = true := by
  constructor
  · intro h
    cases h with
    | nan hnan => exact hnan
  · exact .nan

end Width

/-- **Literals denote narrowed constants.** For every constant and both widths, the text of the constant
    is an expression of the element type that denotes one element, and that element is the constant
    narrowed. It is infinite exactly for infinite constants and, with elements of four bytes, for those
    from half a step beyond the last finite element on; and a NaN exactly for a NaN. -/
theorem Width.literal_denotes_narrowed (w : Width) (v : Double) :
    (∃! x, w.Denotes (w.literal v) x)
    ∧ (∀ x, w.Denotes (w.literal v) x ↔ w.Narrows v x)
    ∧ ((∃ negative, w.Denotes (w.literal v) (.infinite negative))
        ↔ v.isInfinite = true
          ∨ w = .single ∧ v.isFinite = true ∧ 2 ^ 128 - 2 ^ 103 ≤ |v.value|)
    ∧ (w.Denotes (w.literal v) .nan ↔ v.isNaN = true) := by
  have hdenotes : ∀ x, w.Denotes (w.literal v) x ↔ w.Narrows v x :=
    fun x => denotes_literal_iff.trans narrows_iff.symm
  refine ⟨⟨w.element v, w.denotes_literal v, fun x hx => denotes_literal_iff.mp hx⟩, hdenotes, ?_, ?_⟩
  · simp only [hdenotes]
    exact narrows_infinite_iff
  · rw [hdenotes]
    exact narrows_nan_iff

-- the last constant that is narrowed to a finite element, and the next one
example : Width.single.literal ⟨0x47efffffefffffff⟩ = "3.4028235e38f" := by decide +kernel
example : Width.single.literal ⟨0x47effffff0000000⟩ = "std::numeric_limits<real_t>::infinity()" := by
  decide +kernel

end Stencil
