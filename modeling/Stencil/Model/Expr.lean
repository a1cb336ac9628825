import Stencil.Model.Grid
import Stencil.Model.Operator
import Stencil.Number.Style

/-!
# Expressions

The right-hand sides of equations: constants, points and binary operations. The tree fixes the order
of evaluation; nothing is ever reassociated.

A division is refused if its divisor has no points and is worth zero. The same refusal is found by
looking over the tree (`Expr.zeroDivision?`) and by evaluating it (`Expr.evaluate`).
-/

namespace Stencil

inductive Expr where
  | const (value : Double)
  | point (p : Point)
  | binary (op : Operator) (lhs rhs : Expr)
  deriving DecidableEq

namespace Expr

/-- The expression with every operation in parentheses, such as `((a + b) / 7)`. -/
def text : Expr → String
  | const v => v.text
  | point p => p.text
  | binary op lhs rhs => "(" ++ lhs.text ++ " " ++ op.symbol ++ " " ++ rhs.text ++ ")"

/-- Every subtree, a node before its operands and the left one before the right one. -/
def subtrees : Expr → List Expr
  | binary op lhs rhs => binary op lhs rhs :: (lhs.subtrees ++ rhs.subtrees)
  | e => [e]

/-- The points, from left to right and as often as they occur. -/
def points : Expr → List Point
  | const _ => []
  | point p => [p]
  | binary _ lhs rhs => lhs.points ++ rhs.points

/-- The number of nodes. -/
def size : Expr → Nat
  | binary _ lhs rhs => 1 + lhs.size + rhs.size
  | _ => 1

/-- The later of two step offsets. -/
def laterOf (a b : Int64) : Int64 := if a.toInt ≤ b.toInt then b else a

/-- The latest step offset of a point. -/
def latestStep? (e : Expr) : Option Int64 :=
  (e.points.filterMap Point.stepOffset?).foldl
    (fun latest o => some (match latest with | none => o | some l => laterOf l o)) none

/-- The value of an expression without points. -/
def constValue? : Expr → Option Double
  | const v => some v
  | point _ => none
  | binary op lhs rhs =>
    match lhs.constValue?, rhs.constValue? with
    | some a, some b => some (op.apply a b)
    | _, _ => none

/-- A division by an expression without points that is worth zero, of either sign. -/
def isZeroDivision : Expr → Bool
  | binary .div _ rhs => rhs.constValue?.any Double.isZero
  | _ => false

/-- The refusal of a division by zero. -/
def refusal (e : Expr) : Error := .divisionByZero e.text

/-- The first division by zero, a node before its operands. -/
def zeroDivision? (e : Expr) : Option Error :=
  (e.subtrees.find? isZeroDivision).map refusal

/-- The two expressions have the same shape and points, and their constants have the same values. -/
def agrees : Expr → Expr → Bool
  | const a, const b => a.agrees b
  | point p, point q => p == q
  | binary op a b, binary op' a' b' => op == op' && a.agrees a' && b.agrees b'
  | _, _ => false

/-! ## Evaluation -/

/-- The outcome of an evaluation and the points that were read for it, in order. -/
structure Evaluation where
  outcome : Except Error Double
  reads : List Point

/-- The value of an expression, with the values of its points supplied. A division by zero is
    refused before its operands are evaluated, and ends the evaluation. -/
def evaluate (read : Point → Double) : Expr → Evaluation
  | const v => ⟨.ok v, []⟩
  | point p => ⟨.ok (read p), [p]⟩
  | e@(binary op lhs rhs) =>
    if e.isZeroDivision then ⟨.error e.refusal, []⟩
    else
      let left := lhs.evaluate read
      match left.outcome with
      | .error err => ⟨.error err, left.reads⟩
      | .ok a =>
        let right := rhs.evaluate read
        match right.outcome with
        | .error err => ⟨.error err, left.reads ++ right.reads⟩
        | .ok b => ⟨.ok (op.apply a b), left.reads ++ right.reads⟩

end Expr

end Stencil
