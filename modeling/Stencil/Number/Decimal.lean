import Stencil.Number.Double

/-!
# Decimals

A decimal is a natural number of tenths, hundredths, …: `coefficient * 10 ^ exponent`. This module
goes both ways between decimals and floating-point words.

Contents: `Decimal.nearest` reads a decimal as the nearest word of a layout; `Layout.shortest` gives
the decimal of fewest digits that is read back as a given word, and among those the nearest to it.
-/

namespace Stencil

/-- The number `coefficient * 10 ^ exponent`. -/
structure Decimal where
  coefficient : Nat
  exponent : Int
  deriving DecidableEq, Repr

namespace Decimal

/-- The coefficient's digits, most significant first. -/
def digits (d : Decimal) : List Char := Nat.toDigits 10 d.coefficient

/-- The power of ten of the first digit. -/
def leading (d : Decimal) : Int := d.exponent + d.digits.length - 1

/-- Numerator of the decimal as a ratio. -/
def num (d : Decimal) : Nat := d.coefficient * Nat.pow 10 d.exponent.toNat

/-- Denominator of the decimal as a ratio. -/
def den (d : Decimal) : Nat := Nat.pow 10 (-d.exponent).toNat

/-- The word of a layout nearest to a decimal, the even one of two. A decimal that is far above
    the last finite word or far below half the first one is not written out as a ratio: its power
    of ten may be arbitrarily large. -/
def nearest (l : Layout) (d : Decimal) : Nat :=
  if d.coefficient = 0 ∨ d.leading + 1 < -(l.scale : Int) then 0
  else if (Nat.pow 2 l.exponentBits : Int) < d.leading then l.infinity
  else l.nearest d.num d.den

/-- The double nearest to `± d`. -/
def toDouble (negative : Bool) (d : Decimal) : Double :=
  Double.ofMagnitude negative (d.nearest Layout.double)

end Decimal

/-! ## Fewest digits -/

namespace Layout

/-- The decimal lies so near to a finite positive word that it is read as that word: between the
    midpoints to the two neighbours, the midpoints themselves included for an even word. -/
def reads (l : Layout) (word : Nat) (d : Decimal) : Bool :=
  let low := (l.units (word - 1) + l.units word) * d.den
  let high := (l.units word + l.units (word + 1)) * d.den
  let here := 2 * d.num * Nat.pow 2 l.scale
  if word % 2 = 0 then low ≤ here && here ≤ high else low < here && here < high

/-- The greatest multiple of `10 ^ exponent` that is not above a word. -/
def floorAt (l : Layout) (word : Nat) (exponent : Int) : Decimal :=
  ⟨l.units word * Nat.pow 10 (-exponent).toNat / (Nat.pow 2 l.scale * Nat.pow 10 exponent.toNat),
    exponent⟩

/-- Twice the distance from `floorAt` to the word is less than `10 ^ exponent`. -/
def belowMiddle (l : Layout) (word : Nat) (exponent : Int) : Bool :=
  let step := Nat.pow 2 l.scale * Nat.pow 10 exponent.toNat
  2 * (l.units word * Nat.pow 10 (-exponent).toNat % step) < step

/-- The multiple of `10 ^ exponent` that is read as the word, if there is one. Only the two
    multiples around the word can be; of both the nearer is taken, and the upper one if they are
    equally near. -/
def onGrid (l : Layout) (word : Nat) (exponent : Int) : Option Decimal :=
  let lower := l.floorAt word exponent
  let upper : Decimal := ⟨lower.coefficient + 1, exponent⟩
  match l.reads word lower, l.reads word upper with
  | true, false => some lower
  | false, true => some upper
  | true, true => some (if l.belowMiddle word exponent then lower else upper)
  | false, false => none

/-- Tries the grids of multiples of `10 ^ exponent`, `10 ^ (exponent - 1)`, … in turn. -/
def searchFrom (l : Layout) (word : Nat) : Nat → Int → Decimal
  | 0, exponent => l.floorAt word exponent
  | fuel + 1, exponent =>
    match l.onGrid word exponent with
    | some d => d
    | none => searchFrom l word fuel (exponent - 1)

/-- An exponent of ten whose power is above the word and its upper neighbour: `2 ^ 3 ≤ 10` for
    words from one up, `10 ^ 3 ≤ 2 ^ 10` for those below. -/
def ceilingExponent (l : Layout) (word : Nat) : Int :=
  let binary : Int := (l.units word).log2 + 2 - l.scale
  if 0 ≤ binary then binary / 3 + 1 else -(-binary / 10 * 3)

/-- **Fewest digits**: the decimal on the coarsest grid that is read as the finite positive word.
    Every word is itself a multiple of `10 ^ (-l.scale)`, where the search ends at the latest. -/
def shortest (l : Layout) (word : Nat) : Decimal :=
  let top := l.ceilingExponent word
  l.searchFrom word (top + l.scale).toNat top

end Layout

end Stencil
