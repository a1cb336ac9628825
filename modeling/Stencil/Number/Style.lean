import Stencil.Number.Decimal

/-!
# How numbers are written

Numbers are written with the fewest digits that read back. Two styles differ in when they use a
power of ten and in how they write whole numbers: `Style.plain` for messages and model text,
`Style.literal` for the constants of generated code.
-/

namespace Stencil

/-- How the digits of a number are laid out. Powers of ten in the positional range are written out,
    others as `d.ddde±x`. -/
structure Style where
  /-- Least and greatest power of ten of a first digit that is written positionally. -/
  positional : Option (Int × Int)
  /-- What follows a whole number that is written positionally. -/
  wholeSuffix : String

namespace Style

/-- Never a power of ten, and whole numbers bare. -/
def plain : Style := ⟨none, ""⟩

/-- Powers of ten from `10 ^ 16` up and below `10 ^ (-4)`, and `.0` after whole numbers. -/
def literal : Style := ⟨some (-4, 15), ".0"⟩

/-- The decimal is written without a power of ten. -/
def isPositional (s : Style) (d : Decimal) : Bool :=
  match s.positional with
  | none => true
  | some (least, greatest) => least ≤ d.leading && d.leading ≤ greatest

/-- The digits with zeros and a point as its exponent needs. -/
def positionalText (s : Style) (d : Decimal) : String :=
  let ds := d.digits
  if 0 ≤ d.exponent then
    String.ofList (ds ++ List.replicate d.exponent.toNat '0') ++ s.wholeSuffix
  else
    let places := (-d.exponent).toNat
    if places < ds.length then
      String.ofList (ds.take (ds.length - places)) ++ "."
        ++ String.ofList (ds.drop (ds.length - places))
    else
      "0." ++ String.ofList (List.replicate (places - ds.length) '0' ++ ds)

/-- One digit before the point, no point if there is only one digit, and the power of ten. -/
def scientificText (d : Decimal) : String :=
  let power := "e" ++ toString d.leading
  match d.digits with
  | [] => power
  | [c] => String.singleton c ++ power
  | c :: cs => String.singleton c ++ "." ++ String.ofList cs ++ power

/-- A decimal's text. -/
def decimalText (s : Style) (d : Decimal) : String :=
  if s.isPositional d then s.positionalText d else scientificText d

/-- The text of a word without its sign. -/
def magnitudeText (s : Style) (l : Layout) (word : Nat) : String :=
  if l.infinity < word then "NaN"
  else if word = l.infinity then "inf"
  else if word = 0 then "0" ++ s.wholeSuffix
  else s.decimalText (l.shortest word)

/-- The text of a word: a NaN shows no sign, and the negative zero does. -/
def text (s : Style) (l : Layout) (negative : Bool) (word : Nat) : String :=
  (if negative && word ≤ l.infinity then "-" else "") ++ s.magnitudeText l word

end Style

/-- The number in plain style. -/
def Double.text (x : Double) : String := Style.plain.text .double x.isNegative x.magnitude

instance : ToString Double := ⟨Double.text⟩

end Stencil
