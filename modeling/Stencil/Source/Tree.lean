import Stencil.Model.Operator
import Stencil.Source.Span

/-!
# Syntax trees

What a source text says, before any name in it is looked up. Every node knows the span of the text
that it stands for. Parentheses leave no node, and the span of what they enclose stays without them.
-/

namespace Stencil.Source

/-- A name where it is used. -/
structure Ident where
  name : String
  span : Span
  deriving DecidableEq, Repr

/-- One index of a point: a dimension and a signed offset along it, zero if none is written. -/
structure Index where
  dim : Ident
  offset : Double
  span : Span
  deriving DecidableEq

/-- A grid with one index a dimension. -/
structure Point where
  grid : Ident
  indices : List Index
  span : Span
  deriving DecidableEq

inductive Expr where
  | number (value : Double) (span : Span)
  | point (p : Point)
  | neg (operand : Expr) (span : Span)
  | binary (op : Operator) (lhs rhs : Expr) (span : Span)
  deriving DecidableEq

/-- The text that an expression stands for. -/
def Expr.span : Expr → Span
  | number _ span => span
  | point p => p.span
  | neg _ span => span
  | binary _ _ _ span => span

/-- What a statement says. -/
inductive Clause where
  | solution (name : Ident)
  | set (name : Ident) (value : Double) (valueSpan : Span)
  | step (name : Ident)
  | domain (names : List Ident)
  | grid (name : Ident) (dims : List Ident)
  | equation (lhs : Point) (rhs : Expr)
  deriving DecidableEq

/-- A clause and the text that it stands for, with its semicolon. -/
structure Statement where
  clause : Clause
  span : Span
  deriving DecidableEq

structure Program where
  statements : List Statement
  span : Span
  deriving DecidableEq

end Stencil.Source
