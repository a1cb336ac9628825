import Mathlib
import Stencil.Source.Parser

/-!
# Reading a token at a time

In this grammar one token decides how a text goes on, so that a program can be read without ever
going back: by a fold of `Phase.next` over the tokens. A **phase** holds what has been read of the
statement at hand. `Phase.expected` lists what may follow, in the order in which the alternatives of
the grammar try it, and reading stops at the first token that may not.

That the parser gives the same programs and the same errors (`parse_eq`) is shown where its
backtracking is followed. Here is what makes such a comparison possible: **a phase expects exactly
what it can read** (`mem_expected_iff`), and each thing once (`nodup_expected`).

An expression in a phase is a stack of levels, one for each parenthesis that is open. A level keeps
the sum and the product that wait for their second operand, and the signs before the operand that is
to come. An operator completes whatever binds at least as strongly as it does, so that the tree
comes out as the grammar groups it, and no operator is ever looked at twice.
-/

namespace Stencil.Source

/-! ## Phases of a statement -/

/-- An operand that waits for the right operand of an operator. -/
structure Pending where
  lhs : Expr
  op : Operator
  deriving DecidableEq

/-- What has been read on one level of parentheses: the left operands of a sum and of a product, and
    the minus signs before the next operand, the last one first. -/
structure Level where
  sum : Option Pending
  product : Option Pending
  signs : List Span
  deriving DecidableEq

/-- An equation whose right-hand side is being read, with the levels around the innermost one. -/
structure OpenEquation where
  lhs : Point
  level : Level
  outer : List Level
  deriving DecidableEq

/-- Where a point stands: left of the equals sign, or in an expression. -/
inductive Site where
  | target
  | operand (e : OpenEquation)
  deriving DecidableEq

/-- What has been read of a point. -/
inductive PointPhase where
  /-- The grid; its parenthesis follows. -/
  | named
  /-- The opening parenthesis. -/
  | opened
  /-- A dimension, after complete indices. -/
  | index (done : List Index) (dim : Ident)
  /-- A dimension and a sign. -/
  | signed (done : List Index) (dim : Ident) (negative : Bool)
  /-- Indices, the last one with an offset. -/
  | indexed (done : List Index)
  /-- Indices and a comma. -/
  | separated (done : List Index)
  deriving DecidableEq

/-- What has been read of a statement. `start` is where the statement starts. -/
inductive Phase where
  /-- Nothing. -/
  | idle
  /-- A keyword. -/
  | header (k : Keyword) (start : Nat)
  /-- `set` and a name. -/
  | setting (start : Nat) (name : Ident)
  /-- `set`, a name and the equals sign. -/
  | settingValue (start : Nat) (name : Ident)
  /-- `domain` and names. -/
  | domains (start : Nat) (names : List Ident)
  /-- `domain`, names and a comma. -/
  | domainsMore (start : Nat) (names : List Ident)
  /-- `grid` and a name. -/
  | gridNamed (start : Nat) (name : Ident)
  /-- `grid`, a name and the opening parenthesis. -/
  | gridOpened (start : Nat) (name : Ident)
  /-- `grid`, a name and dimensions. -/
  | gridDims (start : Nat) (name : Ident) (dims : List Ident)
  /-- `grid`, a name, dimensions and a comma. -/
  | gridMore (start : Nat) (name : Ident) (dims : List Ident)
  /-- A whole clause. -/
  | closing (start : Nat) (clause : Clause)
  /-- Part of a point. -/
  | point (site : Site) (grid : Ident) (phase : PointPhase)
  /-- The point left of the equals sign. -/
  | target (lhs : Point)
  /-- An equation up to where an operand starts. -/
  | operand (e : OpenEquation)
  /-- An equation up to the end of an operand; `value` is the product that ends there. -/
  | operator (e : OpenEquation) (value : Expr)
  deriving DecidableEq

/-! ## Expressions -/

/-- Completes what waits for a right operand. -/
def complete (waiting : Option Pending) (rhs : Expr) : Expr :=
  match waiting with
  | none => rhs
  | some p => p.lhs.join p.op rhs

namespace Level

/-- A level of which nothing has been read. -/
def empty : Level := ⟨none, none, []⟩

/-- The product that an operand ends. -/
def productWith (l : Level) (operand : Expr) : Expr :=
  complete l.product (l.signs.foldl Expr.under operand)

/-- The sum that a product ends. -/
def sumWith (l : Level) (product : Expr) : Expr := complete l.sum product

end Level

/-- Where the operators of products stand in the grammar. -/
def Symbol.productOperator? : Symbol → Option Operator
  | star => some .mul
  | slash => some .div
  | _ => none

/-- Where the operators of sums stand in the grammar. -/
def Symbol.sumOperator? : Symbol → Option Operator
  | plus => some .add
  | minus => some .sub
  | _ => none

namespace OpenEquation

/-- The equation after an operand. -/
def withOperand (e : OpenEquation) (operand : Expr) : Phase :=
  .operator { e with level := ⟨e.level.sum, none, []⟩ } (e.level.productWith operand)

/-- The equation after one more minus sign before an operand. -/
def withSign (e : OpenEquation) (minus : Span) : OpenEquation :=
  { e with level := { e.level with signs := minus :: e.level.signs } }

/-- The equation inside a new pair of parentheses. -/
def nested (e : OpenEquation) : OpenEquation := ⟨e.lhs, .empty, e.level :: e.outer⟩

end OpenEquation

/-! ## One token -/

/-- Where a token leads: on within the statement, or to its end. -/
inductive Move where
  | on (phase : Phase)
  | done (statement : Statement)
  deriving DecidableEq

/-- The phase after a whole point. -/
def Site.close (site : Site) (p : Point) : Phase :=
  match site with
  | target => .target p
  | operand e => e.withOperand (.point p)

/-- An index without an offset. -/
def Index.bare (dim : Ident) : Index := ⟨dim, .zero, dim.span⟩

/-- An index with an offset, which ends where the number does. -/
def Index.shifted (dim : Ident) (negative : Bool) (value : Double) (stop : Nat) : Index :=
  ⟨dim, if negative then value.neg else value, ⟨dim.span.start, stop⟩⟩

/-- The phase of a point after its last index. -/
def closePoint (site : Site) (grid : Ident) (indices : List Index) (stop : Nat) : Phase :=
  site.close ⟨grid, indices, ⟨grid.span.start, stop⟩⟩

/-- The phase after a token within a point. -/
def PointPhase.next (site : Site) (grid : Ident) (phase : PointPhase) (x : Lexeme) :
    Option Phase :=
  match phase, x.token with
  | named, .symbol .openParen => some (.point site grid opened)
  | opened, .ident d => some (.point site grid (index [] ⟨d, x.span⟩))
  | opened, .symbol .closeParen => some (closePoint site grid [] x.span.stop)
  | index done dim, .symbol .plus => some (.point site grid (signed done dim false))
  | index done dim, .symbol .minus => some (.point site grid (signed done dim true))
  | index done dim, .symbol .comma => some (.point site grid (separated (done ++ [.bare dim])))
  | index done dim, .symbol .closeParen =>
    some (closePoint site grid (done ++ [.bare dim]) x.span.stop)
  | signed done dim negative, .number v =>
    some (.point site grid (indexed (done ++ [.shifted dim negative v x.span.stop])))
  | indexed done, .symbol .comma => some (.point site grid (separated done))
  | indexed done, .symbol .closeParen => some (closePoint site grid done x.span.stop)
  | separated done, .ident d => some (.point site grid (index done ⟨d, x.span⟩))
  | _, _ => none

/-- The phase after a keyword and the name that follows it. -/
def afterHeader (k : Keyword) (start : Nat) (name : Ident) : Phase :=
  match k with
  | .solution => .closing start (.solution name)
  | .set => .setting start name
  | .step => .closing start (.step name)
  | .domain => .domains start [name]
  | .grid => .gridNamed start name

/-- The phase after an operator, given the product before it. -/
def OpenEquation.afterOperator (e : OpenEquation) (value : Expr) (s : Symbol) : Option Phase :=
  match s.productOperator?, s.sumOperator? with
  | some op, _ => some (.operand { e with level := ⟨e.level.sum, some ⟨value, op⟩, []⟩ })
  | none, some op =>
    some (.operand { e with level := ⟨some ⟨e.level.sumWith value, op⟩, none, []⟩ })
  | none, none => none

/-- Where a token leads after an operand. -/
def OpenEquation.next (e : OpenEquation) (value : Expr) (x : Lexeme) : Option Move :=
  match x.token, e.outer with
  | .symbol .closeParen, level :: outer =>
    some (.on (OpenEquation.withOperand ⟨e.lhs, level, outer⟩ (e.level.sumWith value)))
  | .symbol .semicolon, [] =>
    some (.done ⟨.equation e.lhs (e.level.sumWith value), ⟨e.lhs.span.start, x.span.stop⟩⟩)
  | .symbol s, _ => (e.afterOperator value s).map .on
  | _, _ => none

/-- **One token**: where it leads, if it may follow. -/
def Phase.next (phase : Phase) (x : Lexeme) : Option Move :=
  match phase, x.token with
  | idle, .keyword k => some (.on (header k x.span.start))
  | idle, .ident g => some (.on (point .target ⟨g, x.span⟩ .named))
  | header k start, .ident n => some (.on (afterHeader k start ⟨n, x.span⟩))
  | setting start name, .symbol .equals => some (.on (settingValue start name))
  | settingValue start name, .number v => some (.on (closing start (.set name v x.span)))
  | domains start names, .symbol .comma => some (.on (domainsMore start names))
  | domains start names, .symbol .semicolon =>
    some (.done ⟨.domain names, ⟨start, x.span.stop⟩⟩)
  | domainsMore start names, .ident n => some (.on (domains start (names ++ [⟨n, x.span⟩])))
  | gridNamed start name, .symbol .openParen => some (.on (gridOpened start name))
  | gridOpened start name, .ident d => some (.on (gridDims start name [⟨d, x.span⟩]))
  | gridOpened start name, .symbol .closeParen => some (.on (closing start (.grid name [])))
  | gridDims start name dims, .symbol .comma => some (.on (gridMore start name dims))
  | gridDims start name dims, .symbol .closeParen => some (.on (closing start (.grid name dims)))
  | gridMore start name dims, .ident d =>
    some (.on (gridDims start name (dims ++ [⟨d, x.span⟩])))
  | closing start clause, .symbol .semicolon => some (.done ⟨clause, ⟨start, x.span.stop⟩⟩)
  | point site grid phase, _ => (phase.next site grid x).map .on
  | target lhs, .symbol .equals => some (.on (operand ⟨lhs, .empty, []⟩))
  | operand e, .symbol .minus => some (.on (operand (e.withSign x.span)))
  | operand e, .number v => some (.on (e.withOperand (.number v x.span)))
  | operand e, .ident g => some (.on (point (.operand e) ⟨g, x.span⟩ .named))
  | operand e, .symbol .openParen => some (.on (operand e.nested))
  | operator e value, _ => e.next value x
  | _, _ => none

/-! ## What may follow -/

open Expectation in
/-- What may follow within a point. -/
def PointPhase.expected : PointPhase → List Expectation
  | named => [symbol .openParen]
  | opened => [terminal .ident, symbol .closeParen]
  | index _ _ => [symbol .plus, symbol .minus, symbol .comma, symbol .closeParen]
  | signed _ _ _ => [terminal .number]
  | indexed _ => [symbol .comma, symbol .closeParen]
  | separated _ => [terminal .ident]

open Expectation in
/-- **What may follow**, in the order in which the grammar lists it. -/
def Phase.expected : Phase → List Expectation
  | idle => Keyword.all.map (fun k => terminal (.keyword k)) ++ [terminal .ident, endOfInput]
  | header _ _ => [terminal .ident]
  | setting _ _ => [symbol .equals]
  | settingValue _ _ => [terminal .number]
  | domains _ _ => [symbol .comma, symbol .semicolon]
  | domainsMore _ _ => [terminal .ident]
  | gridNamed _ _ => [symbol .openParen]
  | gridOpened _ _ => [terminal .ident, symbol .closeParen]
  | gridDims _ _ _ => [symbol .comma, symbol .closeParen]
  | gridMore _ _ _ => [terminal .ident]
  | closing _ _ => [symbol .semicolon]
  | point _ _ phase => phase.expected
  | target _ => [symbol .equals]
  | operand _ => [symbol .minus, terminal .number, terminal .ident, symbol .openParen]
  | operator e _ =>
    [symbol .star, symbol .slash, symbol .plus, symbol .minus,
      symbol (if e.outer.isEmpty then .semicolon else .closeParen)]

/-! ## Statement after statement -/

/-- Reads on from a phase, with the statements before it. -/
def parseFrom (done : List Statement) (phase : Phase) :
    List Lexeme → Except SyntaxError (List Statement)
  | [] =>
    match phase with
    | .idle => .ok done
    | _ => .error ⟨none, phase.expected⟩
  | x :: xs =>
    match phase.next x with
    | none => .error ⟨some x, phase.expected⟩
    | some (.on phase') => parseFrom done phase' xs
    | some (.done statement) => parseFrom (done ++ [statement]) .idle xs

/-! ## A phase expects exactly what it can read -/

/-- Inside a point, a kind of token is expected exactly if there is a token of that kind that can be
    read. -/
theorem mem_pointExpected_iff (site : Site) (g : Ident) (phase : PointPhase) (x : Lexeme) :
    .terminal x.token.terminal ∈ phase.expected ↔ (phase.next site g x).isSome = true := by
  obtain ⟨token, span⟩ := x
  cases token with
  | symbol s => cases phase <;> cases s <;> simp [PointPhase.expected, PointPhase.next,
      Token.terminal, Expectation.symbol]
  | _ => cases phase <;> simp [PointPhase.expected, PointPhase.next, Token.terminal,
      Expectation.symbol]

/-- After an operand a token may follow exactly if its terminal is expected: an operator, or what
    closes the innermost level. -/
theorem mem_operatorExpected_iff (e : OpenEquation) (v : Expr) (x : Lexeme) :
    .terminal x.token.terminal ∈ (Phase.operator e v).expected
      ↔ ((Phase.operator e v).next x).isSome = true := by
  obtain ⟨token, span⟩ := x
  obtain ⟨lhs, level, outer⟩ := e
  cases token with
  | symbol s => cases outer <;> cases s <;> simp [Phase.expected, Phase.next, OpenEquation.next,
      OpenEquation.afterOperator, Symbol.productOperator?, Symbol.sumOperator?, Token.terminal,
      Expectation.symbol]
  | _ => simp [Phase.expected, Phase.next, OpenEquation.next, Token.terminal, Expectation.symbol]

/-- **A phase expects exactly what it can read**: nothing is listed that would be turned down, and
    nothing is left out. -/
theorem mem_expected_iff (phase : Phase) (x : Lexeme) :
    .terminal x.token.terminal ∈ phase.expected ↔ (phase.next x).isSome = true := by
  cases phase with
  | point site g phase =>
    rw [Phase.expected, mem_pointExpected_iff site g]
    simp [Phase.next]
  | operator e v => exact mem_operatorExpected_iff e v x
  | idle =>
    obtain ⟨token, span⟩ := x
    cases token with
    | keyword k => cases k <;> simp [Phase.expected, Phase.next, Token.terminal, Keyword.all]
    | _ => simp [Phase.expected, Phase.next, Token.terminal, Keyword.all]
  | _ =>
    obtain ⟨token, span⟩ := x
    cases token with
    | symbol s => cases s <;> simp [Phase.expected, Phase.next, Token.terminal, Expectation.symbol]
    | _ => simp [Phase.expected, Phase.next, Token.terminal, Expectation.symbol]

/-- The text may end between statements, and only there. -/
theorem endOfInput_mem_expected_iff (phase : Phase) :
    .endOfInput ∈ phase.expected ↔ phase = .idle := by
  cases phase with
  | idle => simp [Phase.expected]
  | point site g phase => cases phase <;> simp [Phase.expected, PointPhase.expected,
      Expectation.symbol]
  | _ => simp [Phase.expected, Expectation.symbol]

/-- Nothing is listed twice, so that a report of what was expected repeats nothing. -/
theorem nodup_expected (phase : Phase) : phase.expected.Nodup := by
  cases phase with
  | point site g phase => cases phase <;> simp [Phase.expected, PointPhase.expected,
      Expectation.symbol]
  | operator e v =>
    obtain ⟨lhs, level, outer⟩ := e
    cases outer <;> simp [Phase.expected, Expectation.symbol]
  | idle => decide
  | _ => simp [Phase.expected, Expectation.symbol]

/-- Something may always follow, so that a report always names something that was expected. -/
theorem expected_ne_nil (phase : Phase) : phase.expected ≠ [] := by
  cases phase with
  | point site g phase => cases phase <;> simp [Phase.expected, PointPhase.expected]
  | _ => simp [Phase.expected]

end Stencil.Source
