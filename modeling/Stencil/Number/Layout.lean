/-!
# Binary interchange layouts

A layout says how many bits the significand and the exponent of a floating-point word have. The
sign apart, the words of a layout are the naturals `0, 1, 2, …` in the order of the values they
stand for, and every finite value is a natural number of **units**, a unit being the least positive
value. So the value of a word, its two neighbours and the rounding of a ratio are computed exactly
in `Nat`.

Contents: `Layout` with the two layouts in use, `Layout.units` (what a word is worth),
`Layout.nearest` (the word nearest to a ratio, the even one of two equally near).
-/

namespace Stencil

/-- A binary floating-point layout: the significand's bits, the leading one included, and the
    exponent's bits. -/
structure Layout where
  precision : Nat
  exponentBits : Nat
  deriving DecidableEq, Repr

namespace Layout

/-- Words of 64 bits. -/
def double : Layout := ⟨53, 11⟩

/-- Words of 32 bits. -/
def single : Layout := ⟨24, 8⟩

/-- The number of words that share one exponent, which is also the least normal significand. -/
def binade (l : Layout) : Nat := Nat.pow 2 (l.precision - 1)

/-- The word of infinity: the first one whose exponent bits are all set. The words after it are no
    numbers. -/
def infinity (l : Layout) : Nat := (Nat.pow 2 l.exponentBits - 1) * l.binade

/-- The unit is `2 ^ (-l.scale)`. -/
def scale (l : Layout) : Nat := Nat.pow 2 (l.exponentBits - 1) + l.precision - 3

/-- The significand of a word. The words of the first binade have no leading one. -/
def significand (l : Layout) (word : Nat) : Nat :=
  if word < l.binade then word else l.binade + word % l.binade

/-- How far the significand of a word stands above the units. -/
def shift (l : Layout) (word : Nat) : Nat := word / l.binade - 1

/-- What a word is worth, in units. -/
def units (l : Layout) (word : Nat) : Nat := l.significand word * Nat.pow 2 (l.shift word)

/-- The word nearest to `num / den`, and of two equally near words the even one. Ratios beyond the
    last finite word by half a step or more go to infinity.

    With `k` the shift of the result, the quotient by `2 ^ k` units is the significand, and
    `k * binade + significand` is the word, also where rounding up carries into the next binade. -/
def nearest (l : Layout) (num den : Nat) : Nat :=
  let scaled := num * Nat.pow 2 l.scale
  let k := (scaled / den).log2 - (l.precision - 1)
  let step := den * Nat.pow 2 k
  let m := scaled / step
  let r := scaled % step
  let m := if step < 2 * r then m + 1 else if 2 * r = step then m + m % 2 else m
  min l.infinity (k * l.binade + m)

end Layout

end Stencil
