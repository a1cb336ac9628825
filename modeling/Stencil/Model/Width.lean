/-!
# Element widths

The elements of all grids of a solution are floating-point numbers of one width.
-/

namespace Stencil

/-- Elements of four or of eight bytes. -/
inductive Width where
  | single | double
  deriving DecidableEq, Repr

namespace Width

/-- The bytes of an element. -/
def bytes : Width → Nat
  | single => 4
  | double => 8

/-- The width with the given number of bytes. -/
def ofBytes? (n : Nat) : Option Width :=
  if n = 4 then some single else if n = 8 then some double else none

end Width

end Stencil
