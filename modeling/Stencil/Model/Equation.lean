import Stencil.Model.Expr

/-!
# Equations

An equation gives the value of a point at a later step from values at earlier ones. An equation
carries the fact that `Equation.fault?` finds nothing: its left-hand side has a step dimension and
is later than every point that it reads.
-/

namespace Stencil

/-- An equation's text. -/
def equationText (lhs : Point) (rhs : Expr) : String := lhs.text ++ " EQUALS " ++ rhs.text

/-- Why two sides cannot be computed one from the other, step by step. -/
def causalityFault? (lhs : Point) (rhs : Expr) : Option CausalityFault :=
  match lhs.stepOffset? with
  | none => some (.noStep lhs.grid.name)
  | some l =>
    match rhs.latestStep? with
    | some r => if l.toInt ≤ r.toInt then some (.notLater l r) else none
    | none => none

/-- Why two sides do not make an equation. -/
def Equation.fault? (lhs : Point) (rhs : Expr) : Option Error :=
  (causalityFault? lhs rhs).map (.causality (equationText lhs rhs))

/-- The point on the left has the value of the expression on the right. -/
structure Equation where
  lhs : Point
  rhs : Expr
  sound : Equation.fault? lhs rhs = none
  deriving DecidableEq

namespace Equation

/-- The equation with the given sides. -/
def make (lhs : Point) (rhs : Expr) : Except Error Equation :=
  match h : fault? lhs rhs with
  | some e => .error e
  | none => .ok ⟨lhs, rhs, h⟩

/-- The points, the written one first. -/
def points (e : Equation) : List Point := e.lhs :: e.rhs.points

def text (e : Equation) : String := equationText e.lhs e.rhs

/-- The two equations write the same point, and their right-hand sides agree. -/
def agrees (a b : Equation) : Bool := a.lhs == b.lhs && a.rhs.agrees b.rhs

end Equation

end Stencil
