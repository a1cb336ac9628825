import Mathlib
import Stencil.Proofs.Lowering
import Stencil.Proofs.Rendering

/-!
# Divisions by zero are refused alike

A division by zero is looked for in three ways: by going over the nodes of a tree, by evaluating the
tree, and by lowering an equation. Going over the nodes takes all of them, each before its operands.
Evaluation looks at a node before it turns to the operands, and ends at the first refusal, so it
never sees the nodes behind that one. All three refuse the same division
(`zero_divisions_refused_alike`), whatever the reader of the points does.

Reading a point may have an effect on how later points are read. So evaluation is also given for
readers that keep a state (`Expr.evaluateWith`); the one that runs is the case of a reader without a
state, with the list of its reads kept beside it (`Expr.evaluateWith_listing`).
-/

namespace Stencil

universe u

/-- Why a call is refused, if it is. -/
def refusal? {α : Type u} : Except Error α → Option Error
  | .error err => some err
  | .ok _ => none

namespace Expr

/-! ## The first division by zero -/

/-- A division whose divisor has no points and is worth zero. -/
def IsDivisionByZero (d : Expr) : Prop :=
  ∃ lhs rhs, d = .binary .div lhs rhs
    ∧ rhs.points = [] ∧ ∀ read, (rhs.value .double read).isZero = true

/-- The first division by zero among the nodes of a tree, a node before its operands and the left
    operand before the right one. -/
def IsFirstZeroDivision (e d : Expr) : Prop :=
  ∃ before after, e.subtrees = before ++ d :: after
    ∧ d.IsDivisionByZero ∧ ∀ b ∈ before, ¬ b.IsDivisionByZero

/-- Going over the nodes finds the first division by zero. -/
theorem zeroDivision?_eq_some_iff {e : Expr} {err : Error} :
    e.zeroDivision? = some err ↔ ∃ d, e.IsFirstZeroDivision d ∧ err = .divisionByZero d.text := by
  have hnot : ∀ b : Expr, (!b.isZeroDivision) = true ↔ ¬ b.IsDivisionByZero := by
    intro b
    rw [Bool.not_eq_true', ← Bool.not_eq_true, isZeroDivision_iff]
    rfl
  rw [zeroDivision?, Option.map_eq_some_iff]
  constructor
  · rintro ⟨d, hfind, rfl⟩
    obtain ⟨hzero, before, after, hnodes, hbefore⟩ := List.find?_eq_some_iff_append.mp hfind
    exact ⟨d, ⟨before, after, hnodes, isZeroDivision_iff.mp hzero,
      fun b hb => (hnot b).mp (hbefore b hb)⟩, rfl⟩
  · rintro ⟨d, ⟨before, after, hnodes, hzero, hbefore⟩, rfl⟩
    refine ⟨d, ?_, rfl⟩
    exact List.find?_eq_some_iff_append.mpr
      ⟨isZeroDivision_iff.mpr hzero, before, after, hnodes, fun b hb => (hnot b).mpr (hbefore b hb)⟩

/-! ## Evaluation -/

/-- The value of an expression, with a reader of its points that keeps a state, and the state after
    it. -/
def evaluateWith {σ : Type u} (read : Point → σ → Double × σ) : Expr → σ → Except Error Double × σ
  | const v, s => (.ok v, s)
  | point p, s => (.ok (read p s).1, (read p s).2)
  | e@(binary op lhs rhs), s =>
    if e.isZeroDivision then (.error e.refusal, s)
    else
      match lhs.evaluateWith read s with
      | (.error err, s) => (.error err, s)
      | (.ok a, s) =>
        match rhs.evaluateWith read s with
        | (.error err, s) => (.error err, s)
        | (.ok b, s) => (.ok (op.apply a b), s)

/-- A reader without a state, with a list of what it has read. -/
def listing (read : Point → Double) (p : Point) (reads : List Point) : Double × List Point :=
  (read p, reads ++ [p])

/-- Evaluation without a state is evaluation with a reader that lists its reads. -/
theorem evaluateWith_listing (read : Point → Double) (e : Expr) :
    ∀ reads, e.evaluateWith (listing read) reads
      = ((e.evaluate read).outcome, reads ++ (e.evaluate read).reads) := by
  induction e with
  | const v => intro reads; simp [evaluateWith, evaluate]
  | point p => intro reads; rfl
  | binary op lhs rhs ihl ihr =>
    intro reads
    by_cases h : (binary op lhs rhs).isZeroDivision = true
    · simp [evaluateWith, evaluate, h]
    · simp only [evaluateWith, evaluate, h, Bool.false_eq_true, if_false, ihl]
      cases (lhs.evaluate read).outcome with
      | error err => rfl
      | ok a =>
        simp only [ihr]
        cases (rhs.evaluate read).outcome with
        | error err => simp
        | ok b => simp

/-- **Evaluation refuses what going over the nodes finds**, and nothing else. -/
theorem refusal?_evaluateWith {σ : Type u} (read : Point → σ → Double × σ) (e : Expr) :
    ∀ s, refusal? (e.evaluateWith read s).1 = e.zeroDivision? := by
  induction e with
  | const v => intro s; rfl
  | point p => intro s; rfl
  | binary op lhs rhs ihl ihr =>
    intro s
    by_cases h : (binary op lhs rhs).isZeroDivision = true
    · rw [zeroDivision?_top h]
      simp only [evaluateWith, h, if_true]
      rfl
    · rw [Bool.not_eq_true] at h
      rw [zeroDivision?_binary h, ← ihl s]
      simp only [evaluateWith, h, Bool.false_eq_true, if_false]
      -- the right operand is evaluated only if the left one has a value
      cases lhs.evaluateWith read s with
      | mk left s' =>
        cases left with
        | error err => rfl
        | ok a =>
          simp only [← ihr s']
          cases rhs.evaluateWith read s' with
          | mk right s'' => cases right <;> rfl

theorem refusal?_evaluate (read : Point → Double) (e : Expr) :
    refusal? (e.evaluate read).outcome = e.zeroDivision? := by
  rw [← refusal?_evaluateWith (listing read) e [], evaluateWith_listing]

end Expr

/-! ## Lowering -/

/-- **Lowering refuses what going over the nodes finds**, and nothing else. -/
theorem Equation.refusal?_lower (q : Equation) (index : Nat) (share : Bool) :
    refusal? (q.lower index share) = q.rhs.zeroDivision? := by
  cases hzero : q.rhs.zeroDivision? with
  | none => rw [lower_eq_kernel hzero]; rfl
  | some err => rw [Equation.lower, hzero]; rfl

/-- Equations are lowered in order, up to the first one that is refused. -/
theorem refusal?_lowerFrom (share : Bool) (qs : List Equation) :
    ∀ index, refusal? (lowerFrom share index qs) = qs.findSome? fun q => q.rhs.zeroDivision? := by
  induction qs with
  | nil => intro index; rfl
  | cons q qs ih =>
    intro index
    rw [lowerFrom, List.findSome?_cons, ← q.refusal?_lower index share, ← ih (index + 1)]
    cases q.lower index share with
    | error err => rfl
    | ok k => cases lowerFrom share (index + 1) qs <;> rfl

/-- **Divisions by zero are refused alike.** Let `e` be any tree. Going over its nodes finds a
    refusal exactly if some division has a divisor without points that is worth zero, and it gives
    the text of the first such division, a node before its operands. Evaluation refuses exactly this
    and with this text, and has a value if nothing is found, whatever the reader of the points and
    whether or not it keeps a state. So does lowering an equation with this right-hand side, with
    shared values or without. Lowering a solution is refused exactly if an equation is, and as the
    first such one. -/
theorem zero_divisions_refused_alike :
    (∀ e : Expr,
      (∀ err, e.zeroDivision? = some err
        ↔ ∃ d, e.IsFirstZeroDivision d ∧ err = .divisionByZero d.text)
      ∧ (∀ (σ : Type u) (read : Point → σ → Double × σ) (s : σ),
          refusal? (e.evaluateWith read s).1 = e.zeroDivision?)
      ∧ ∀ read : Point → Double, refusal? (e.evaluate read).outcome = e.zeroDivision?)
    ∧ (∀ (q : Equation) (index : Nat) (share : Bool),
        refusal? (q.lower index share) = q.rhs.zeroDivision?)
    ∧ ∀ (s : Solution) (share : Bool),
        refusal? (s.lower share) = s.equations.findSome? fun q => q.rhs.zeroDivision? := by
  refine ⟨fun e => ⟨?_, ?_, ?_⟩, ?_, ?_⟩
  · intro err
    exact Expr.zeroDivision?_eq_some_iff
  · intro σ read s
    exact e.refusal?_evaluateWith read s
  · intro read
    exact e.refusal?_evaluate read
  · intro q index share
    exact q.refusal?_lower index share
  · intro s share
    exact refusal?_lowerFrom share s.equations 0

/-- Divisors without points are worked out: `1 / (2 - 2)` is refused, and `1 / (0 - 1)`, whose divisor
    starts with a zero, is not. -/
example :
    let one : Expr := .const ⟨0x3ff0000000000000⟩
    let two : Expr := .const ⟨0x4000000000000000⟩
    let refused (divisor : Expr) := (Expr.binary .div one divisor).zeroDivision?
    refused (.binary .sub two two) = some (.divisionByZero "(1 / (2 - 2))")
      ∧ refused (.binary .sub (.const .zero) one) = none := by
  decide +kernel

end Stencil
