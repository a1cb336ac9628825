import Mathlib
import Stencil.Model.Equation

/-!
# Values of expressions in any domain

An **interpretation** says what constants and operators stand for in a domain of values. Nothing is
assumed of it: no operator has to be commutative or associative, and constants with different words
may stand for different values, the two zeros too. So what holds under every interpretation holds of
the tree itself, with its nesting and its order of operands.

Contents: `Expr.value` (the value of a tree), `Interpretation.double` (the arithmetic of machine
doubles) and `Expr.evaluate_outcome`, which says that evaluation either refuses the first division
by zero or gives the value of the tree.
-/

namespace Stencil

universe u

/-- What constants, by their words, and operators stand for. -/
structure Interpretation (V : Type u) where
  const : UInt64 → V
  op : Operator → V → V → V

/-- The value of a tree, with the values of its points supplied. -/
def Expr.value {V : Type u} (I : Interpretation V) (read : Point → V) : Expr → V
  | const v => I.const v.bits
  | point p => read p
  | binary op lhs rhs => I.op op (lhs.value I read) (rhs.value I read)

/-- The arithmetic of machine doubles. -/
def Interpretation.double : Interpretation Double := ⟨Double.mk, Operator.apply⟩

namespace Expr

/-! ## Kinds of trees -/

def isConst : Expr → Bool
  | const _ => true
  | _ => false

def isBinary : Expr → Bool
  | binary _ _ _ => true
  | _ => false

/-! ## Divisions by zero, from the top of a tree down -/

/-- A division by zero at the top of a tree is the first one. -/
theorem zeroDivision?_top {e : Expr} (h : e.isZeroDivision = true) :
    e.zeroDivision? = some e.refusal := by
  cases e with
  | const v => exact absurd h (by simp [isZeroDivision])
  | point p => exact absurd h (by simp [isZeroDivision])
  | binary op lhs rhs => simp [zeroDivision?, subtrees, h]

/-- Without one at the top, the first one is the left operand's or else the right operand's. -/
theorem zeroDivision?_binary {op : Operator} {lhs rhs : Expr}
    (h : (binary op lhs rhs).isZeroDivision = false) :
    (binary op lhs rhs).zeroDivision? = lhs.zeroDivision?.or rhs.zeroDivision? := by
  simp only [zeroDivision?, subtrees, List.find?_cons, h, List.find?_append]
  cases lhs.subtrees.find? isZeroDivision <;> rfl

/-! ## Evaluation -/

/-- **Evaluation refuses the first division by zero, and else gives the value of the tree.** -/
theorem evaluate_outcome (read : Point → Double) (e : Expr) :
    (e.evaluate read).outcome
      = match e.zeroDivision? with
        | some err => .error err
        | none => .ok (e.value .double read) := by
  induction e with
  | const v => rfl
  | point p => rfl
  | binary op lhs rhs ihl ihr =>
    by_cases h : (binary op lhs rhs).isZeroDivision = true
    · rw [zeroDivision?_top h]
      simp only [evaluate, h, if_true]
    · rw [Bool.not_eq_true] at h
      rw [zeroDivision?_binary h]
      simp only [evaluate, h, Bool.false_eq_true, if_false, ihl, ihr]
      cases lhs.zeroDivision? with
      | some err => rfl
      | none =>
        cases rhs.zeroDivision? with
        | some err => rfl
        | none => rfl

end Expr

end Stencil
