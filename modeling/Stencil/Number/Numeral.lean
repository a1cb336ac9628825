import Stencil.Number.Decimal
import Stencil.Text.Identifier

/-!
# Numerals

A numeral is a number as it is written: digits, perhaps a point and digits, perhaps a power of ten.
`Numeral.take` takes the longest numeral off the front of a text, `Numeral.text` gives the
characters that it was taken from, and `Numeral.value` the decimal that it denotes.
-/

namespace Stencil

/-- What a row of digits denotes. -/
def ofDigits (ds : List Char) : Nat := ds.foldl (fun n c => 10 * n + (c.toNat - '0'.toNat)) 0

/-- The written power of ten: the mark, a sign if there is one, and at least one digit. -/
structure Numeral.Power where
  mark : Char
  sign : Option Char
  digits : List Char
  deriving DecidableEq, Repr

/-- A number as it is written. The fraction holds the digits after the point; without digits there
    is no point. -/
structure Numeral where
  whole : List Char
  fraction : List Char
  power : Option Numeral.Power
  deriving DecidableEq, Repr

namespace Numeral

/-- The characters of a power of ten. -/
def Power.text (p : Power) : List Char := p.mark :: p.sign.toList ++ p.digits

/-- The exponent that a power of ten denotes. -/
def Power.value (p : Power) : Int :=
  if p.sign = some '-' then -(ofDigits p.digits : Int) else ofDigits p.digits

/-- The digits after a point at the front of a text, and what follows them. A point without a digit
    is left alone. -/
def takeFraction : List Char → List Char × List Char
  | '.' :: rest =>
    match rest.takeWhile isDigit with
    | [] => ([], '.' :: rest)
    | ds => (ds, rest.dropWhile isDigit)
  | cs => ([], cs)

/-- The sign at the front of a text, and what follows it. -/
def takeSign : List Char → Option Char × List Char
  | '+' :: rest => (some '+', rest)
  | '-' :: rest => (some '-', rest)
  | cs => (none, cs)

/-- The power of ten at the front of a text, and what follows it. A mark without a digit after it
    and its sign is left alone. -/
def takePower : List Char → Option Power × List Char
  | [] => (none, [])
  | mark :: rest =>
    if mark = 'e' ∨ mark = 'E' then
      let (sign, rest') := takeSign rest
      match rest'.takeWhile isDigit with
      | [] => (none, mark :: rest)
      | ds => (some ⟨mark, sign, ds⟩, rest'.dropWhile isDigit)
    else
      (none, mark :: rest)

/-- The longest numeral at the front of a text, and what follows it. -/
def take (cs : List Char) : Option (Numeral × List Char) :=
  let whole := cs.takeWhile isDigit
  let (fraction, rest) := takeFraction (cs.dropWhile isDigit)
  if whole = [] ∧ fraction = [] then none
  else
    let (power, rest) := takePower rest
    some (⟨whole, fraction, power⟩, rest)

/-- The characters of a fraction. -/
def fractionText (fraction : List Char) : List Char :=
  if fraction = [] then [] else '.' :: fraction

/-- The characters of a numeral. -/
def text (n : Numeral) : List Char :=
  n.whole ++ fractionText n.fraction ++ (n.power.map Power.text).getD []

/-- The decimal that a numeral denotes. -/
def value (n : Numeral) : Decimal :=
  ⟨ofDigits (n.whole ++ n.fraction),
    (n.power.map Power.value).getD 0 - n.fraction.length⟩

/-! ## A numeral is the front of the text it is taken from -/

theorem takeFraction_append (cs : List Char) :
    fractionText (takeFraction cs).1 ++ (takeFraction cs).2 = cs := by
  unfold takeFraction
  split
  · rename_i rest
    split
    · simp [fractionText]
    · rename_i ds hds
      have hne : rest.takeWhile isDigit ≠ [] := hds
      simp [fractionText, hne, List.takeWhile_append_dropWhile]
  · simp [fractionText]

theorem takeSign_append (cs : List Char) : (takeSign cs).1.toList ++ (takeSign cs).2 = cs := by
  unfold takeSign
  split <;> simp

theorem takePower_append (cs : List Char) :
    ((takePower cs).1.map Power.text).getD [] ++ (takePower cs).2 = cs := by
  unfold takePower
  split
  · simp
  · rename_i mark rest
    split
    · have hs := takeSign_append rest
      dsimp only
      split
      · simp
      · simp [Power.text, List.takeWhile_append_dropWhile, hs]
    · simp

/-- Nothing is lost: the numeral and what follows it are the text. -/
theorem take_append {cs rest : List Char} {n : Numeral} (h : take cs = some (n, rest)) :
    n.text ++ rest = cs := by
  unfold take at h
  dsimp only at h
  split at h
  · cases h
  · cases h
    have hf := takeFraction_append (cs.dropWhile isDigit)
    have hp := takePower_append (takeFraction (cs.dropWhile isDigit)).2
    simp only [text, List.append_assoc, hp, hf, List.takeWhile_append_dropWhile]

/-- A numeral has at least one character. -/
theorem text_ne_nil {cs rest : List Char} {n : Numeral} (h : take cs = some (n, rest)) :
    n.text ≠ [] := by
  unfold take at h
  dsimp only at h
  split at h
  · cases h
  · rename_i hne
    cases h
    simp only [text]
    by_cases hw : cs.takeWhile isDigit = []
    · have hf : (takeFraction (cs.dropWhile isDigit)).1 ≠ [] := fun hf => hne ⟨hw, hf⟩
      simp [fractionText, hf]
    · simp [hw]

theorem length_take_lt {cs rest : List Char} {n : Numeral} (h : take cs = some (n, rest)) :
    rest.length < cs.length := by
  have happ := congrArg List.length (take_append h)
  have hpos := List.length_pos_iff.mpr (text_ne_nil h)
  simp only [List.length_append] at happ
  omega

end Numeral

/-- Reads a signed numeral, `inf` or `NaN`, and nothing else. -/
def Double.ofText? (s : String) : Option Double :=
  let (negative, cs) := match s.toList with
    | '-' :: cs => (true, cs)
    | cs => (false, cs)
  if cs = "inf".toList then some (infinity negative)
  else if cs = "NaN".toList then some (if negative then nan.neg else nan)
  else match Numeral.take cs with
    | some (n, []) => some (n.value.toDouble negative)
    | _ => none

end Stencil
