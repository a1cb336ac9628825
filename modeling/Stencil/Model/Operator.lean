import Stencil.Number.Double

/-!
# Arithmetic operators
-/

namespace Stencil

/-- The four binary operators. -/
inductive Operator where
  | add | sub | mul | div
  deriving DecidableEq, Repr

namespace Operator

/-- The sign between two operands. -/
def symbol : Operator → String
  | add => "+"
  | sub => "-"
  | mul => "*"
  | div => "/"

/-- The short name, as it occurs in the names of vector instructions. -/
def mnemonic : Operator → String
  | add => "add"
  | sub => "sub"
  | mul => "mul"
  | div => "div"

/-- The operation on double-precision numbers. -/
def apply : Operator → Double → Double → Double
  | add => Double.add
  | sub => Double.sub
  | mul => Double.mul
  | div => Double.div

/-- All operators. -/
def all : List Operator := [add, sub, mul, div]

/-- The operator with the given sign. -/
def ofSymbol? (s : String) : Option Operator := all.find? (·.symbol == s)

end Operator

end Stencil
