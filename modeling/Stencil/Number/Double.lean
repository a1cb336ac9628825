import Stencil.Number.Layout

/-!
# Double-precision constants

A constant is kept as its 64-bit word. Equality of constants is equality of words: the two zeros
differ, and a NaN equals itself. The comparison of *values*, for which the zeros agree and a NaN
agrees with nothing, is `Double.agrees`.
-/

namespace Stencil

/-- A double-precision number, given by its word. -/
structure Double where
  bits : UInt64
  deriving DecidableEq

namespace Double

/-- The word of which only the sign bit is set. -/
def signBit : Nat := 0x8000000000000000

/-- The sign bit is set. -/
def isNegative (x : Double) : Bool := signBit ≤ x.bits.toNat

/-- The word without its sign. -/
def magnitude (x : Double) : Nat := x.bits.toNat % signBit

/-- The number with the given sign and the given word for its magnitude. -/
def ofMagnitude (negative : Bool) (magnitude : Nat) : Double :=
  ⟨UInt64.ofNat (if negative then signBit + magnitude else magnitude)⟩

def isNaN (x : Double) : Bool := Layout.double.infinity < x.magnitude

def isInfinite (x : Double) : Bool := x.magnitude == Layout.double.infinity

def isFinite (x : Double) : Bool := x.magnitude < Layout.double.infinity

/-- Either zero. -/
def isZero (x : Double) : Bool := x.magnitude == 0

def zero : Double := ⟨0⟩

def nan : Double := ofMagnitude false (Layout.double.infinity + Layout.double.binade / 2)

/-- Infinity of the given sign. -/
def infinity (negative : Bool) : Double := ofMagnitude negative Layout.double.infinity

instance : Inhabited Double := ⟨zero⟩

/-- The number nearest to `± num / den`. -/
def ofRatio (negative : Bool) (num den : Nat) : Double :=
  ofMagnitude negative (Layout.double.nearest num den)

/-- The number nearest to an integer. -/
def ofInt (n : Int) : Double := ofRatio (n < 0) n.natAbs 1

/-! ## Arithmetic -/

/-- Turns the sign bit over. -/
def neg (x : Double) : Double := ofMagnitude (!x.isNegative) x.magnitude

/-- The same number as a machine float. -/
def toFloat (x : Double) : Float := Float.ofBits x.bits

/-- The number that a machine float holds. -/
def ofFloat (x : Float) : Double := ⟨x.toBits⟩

def add (x y : Double) : Double := ofFloat (x.toFloat + y.toFloat)

def sub (x y : Double) : Double := ofFloat (x.toFloat - y.toFloat)

def mul (x y : Double) : Double := ofFloat (x.toFloat * y.toFloat)

def div (x y : Double) : Double := ofFloat (x.toFloat / y.toFloat)

/-- The two numbers have one value. A NaN has none. -/
def agrees (x y : Double) : Bool :=
  !x.isNaN && !y.isNaN && (x == y || (x.isZero && y.isZero))

/-! ## Whole numbers -/

/-- The integer that a finite number is equal to, if there is one. -/
def toInt? (x : Double) : Option Int :=
  let units := Layout.double.units x.magnitude
  let one := Nat.pow 2 Layout.double.scale
  if x.isFinite && units % one == 0 then
    let n : Int := ↑(units / one)
    some (if x.isNegative then -n else n)
  else
    none

/-- The 64-bit integer that a number is equal to, if there is one. -/
def toInt64? (x : Double) : Option Int64 :=
  x.toInt?.bind fun n =>
    if -(signBit : Int) ≤ n ∧ n < signBit then some (Int64.ofInt n) else none

end Double

end Stencil
