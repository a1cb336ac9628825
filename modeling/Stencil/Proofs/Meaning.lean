import Mathlib
import Stencil.Proofs.Values
import Stencil.Source.Elaboration

/-!
# What programs say

Which programs are well formed, and which solution a program describes, said of the statements
alone: what statements declare (`Declared`), how a statement must fit what the statements before it
declare (`Program.WellFormed`), and what grids, points and expressions of the source stand for
(`Program.Describes`). Nothing here looks at how a program is elaborated.

These are definitions only. What is declared are lists in the order of the statements, with no
tables and no first uses. A statement is looked at together with what was declared before it: a grid
must name declared dimensions, with the step dimension in front; an equation must mean something
among the grids declared so far, and write a later step than it reads. A solution is described if
its parts are, one by one, what the declarations stand for.

All of this is about names and numbers and never about places, so that it is the same for two
programs that differ in layout.
-/

namespace Stencil.Source

/-! ## What statements declare -/

/-- A grid statement: the grid's name, and the names of its dimensions. -/
structure GridDecl where
  name : String
  dims : List String

/-- An equation statement. -/
structure EquationDecl where
  lhs : Point
  rhs : Expr

/-- What statements declare, each kind in the order of the statements. -/
structure Declared where
  dims : List Dim
  widths : List Double
  grids : List GridDecl
  equations : List EquationDecl

namespace Declared

def none : Declared := ⟨[], [], [], []⟩

/-- What one clause declares. -/
def ofClause : Clause → Declared
  | .solution _ => none
  | .set _ value _ => { none with widths := [value] }
  | .step id => { none with dims := [⟨id.name, .step⟩] }
  | .domain ids => { none with dims := ids.map fun id => ⟨id.name, .domain⟩ }
  | .grid name dims => { none with grids := [⟨name.name, dims.map Ident.name⟩] }
  | .equation lhs rhs => { none with equations := [⟨lhs, rhs⟩] }

/-- First the one, then the other. -/
def append (D E : Declared) : Declared :=
  ⟨D.dims ++ E.dims, D.widths ++ E.widths, D.grids ++ E.grids, D.equations ++ E.equations⟩

instance : Append Declared := ⟨append⟩

/-- What statements declare together. -/
def ofStatements (stmts : List Statement) : Declared :=
  stmts.foldr (fun stmt D => ofClause stmt.clause ++ D) none

end Declared

/-! ## Well-formed programs -/

/-- The points of an expression, from left to right. -/
def Expr.points : Expr → List Point
  | .number _ _ => []
  | .point p => [p]
  | .neg e _ => e.points
  | .binary _ lhs rhs _ => lhs.points ++ rhs.points

/-- The point names a declared grid, then its dimensions in order, with offsets that are integers of
    64 bits. -/
structure Point.Known (D : Declared) (p : Point) : Prop where
  grid : ∃ g ∈ D.grids, g.name = p.grid.name ∧ p.indices.map (·.dim.name) = g.dims
  offsets : ∀ i ∈ p.indices, ∃ n : Int, i.offset.IsInt n ∧ -2 ^ 63 ≤ n ∧ n < 2 ^ 63

/-- The point has the given offset along the step dimension. -/
def Point.AtStep (D : Declared) (p : Point) (n : Int) : Prop :=
  ∃ i ∈ p.indices, ⟨i.dim.name, .step⟩ ∈ D.dims ∧ i.offset.IsInt n

/-- What a grid statement must be like after statements that declare `D`. -/
structure GridDecl.Fits (D : Declared) (g : GridDecl) : Prop where
  /-- The dimensions are declared. -/
  declared : ∀ name ∈ g.dims, ∃ d ∈ D.dims, d.name = name
  /-- There is a dimension. -/
  nonempty : g.dims ≠ []
  /-- No dimension is listed twice. -/
  distinct : g.dims.Nodup
  /-- The step dimension is listed first, if at all. -/
  stepFirst : ∀ i name, g.dims[i]? = some name → ⟨name, .step⟩ ∈ D.dims → i = 0
  /-- No earlier grid has the name. -/
  fresh : ∀ g' ∈ D.grids, g'.name ≠ g.name

/-- What an equation statement must be like after statements that declare `D`. -/
structure EquationDecl.Fits (D : Declared) (e : EquationDecl) : Prop where
  /-- All points are known. -/
  points : ∀ p ∈ e.lhs :: e.rhs.points, p.Known D
  /-- The left-hand side has a step, and it is later than all steps of the right-hand side. -/
  later : ∃ l, e.lhs.AtStep D l ∧ ∀ p ∈ e.rhs.points, ∀ r, p.AtStep D r → r < l

/-- The element width is set, to four or eight bytes. -/
def Clause.SetsWidth (c : Clause) : Prop :=
  ∀ name value span, c = .set name value span →
    name.name = "element_bytes" ∧ (value.IsInt 4 ∨ value.IsInt 8)

/-- **A well-formed program.** -/
structure Program.WellFormed (p : Program) : Prop where
  /-- There is one solution statement. -/
  oneSolution : p.solutionNames.length = 1
  /-- Nothing is set but the element width. -/
  settings : ∀ stmt ∈ p.statements, stmt.clause.SetsWidth
  /-- No two dimensions are declared with one name. -/
  distinct : ((Declared.ofStatements p.statements).dims.map Dim.name).Nodup
  /-- One step dimension is declared at most. -/
  oneStep : ((Declared.ofStatements p.statements).dims.filter Dim.isStep).length ≤ 1
  /-- Each grid statement fits the statements before it. -/
  grids : ∀ before stmt after, p.statements = before ++ stmt :: after →
    ∀ g ∈ (Declared.ofClause stmt.clause).grids, g.Fits (.ofStatements before)
  /-- Each equation statement fits the statements before it. -/
  equations : ∀ before stmt after, p.statements = before ++ stmt :: after →
    ∀ e ∈ (Declared.ofClause stmt.clause).equations, e.Fits (.ofStatements before)

/-! ## What programs describe -/

/-- A grid statement stands for the grid of its name over the declared dimensions that it lists. -/
structure GridDecl.Means (declared : List Dim) (g : GridDecl) (grid : Grid) : Prop where
  name : grid.name = g.name
  dims : grid.dimNames = g.dims
  declared : grid.dims ⊆ declared

/-- A source point stands for the point of the grid of that name with the offsets that its indices
    are worth. -/
structure Point.Means (grids : List Grid) (p : Point) (q : Stencil.Point) : Prop where
  grid : q.grid ∈ grids
  name : q.grid.name = p.grid.name
  dims : p.indices.map (·.dim.name) = q.grid.dimNames
  offsets : List.Forall₂ (fun i o => i.offset.IsInt o.toInt) p.indices q.offsets

/-- What a source expression stands for. The negative of a number is a number; the negative of
    anything else is its product with minus one. -/
inductive Expr.Means (grids : List Grid) : Expr → Stencil.Expr → Prop where
  | number (v : Double) (span : Span) : Means grids (.number v span) (.const v)
  | point {p : Point} {q : Stencil.Point} (h : p.Means grids q) :
      Means grids (.point p) (.point q)
  | negNumber (v : Double) (inner span : Span) :
      Means grids (.neg (.number v inner) span) (.const v.neg)
  | neg {e : Expr} {e' : Stencil.Expr} (span : Span) (hnumber : ∀ v inner, e ≠ .number v inner)
      (h : Means grids e e') :
      Means grids (.neg e span) (.binary .mul (.const (.ofInt (-1))) e')
  | binary {lhs rhs : Expr} {lhs' rhs' : Stencil.Expr} (op : Operator) (span : Span)
      (hl : Means grids lhs lhs') (hr : Means grids rhs rhs') :
      Means grids (.binary op lhs rhs span) (.binary op lhs' rhs')

/-- An equation statement stands for the equation of what its sides stand for. -/
def EquationDecl.Means (grids : List Grid) (e : EquationDecl) (equation : Equation) : Prop :=
  e.lhs.Means grids equation.lhs ∧ e.rhs.Means grids equation.rhs

/-- The elements have the width that is set last, four bytes if none is. -/
def WidthMeans (widths : List Double) (w : Width) : Prop :=
  match widths.getLast? with
  | none => w.bytes = 4
  | some v => v.IsInt w.bytes

/-- The solution has what is declared, in the order of declaration, and nothing else. -/
structure Declared.Describes (D : Declared) (s : Solution) : Prop where
  width : WidthMeans D.widths s.width
  grids : List.Forall₂ (GridDecl.Means D.dims) D.grids s.grids
  equations : List.Forall₂ (EquationDecl.Means s.grids) D.equations s.equations

/-- **What a program describes**: the solution of the name that its solution statement gives, with
    all that its statements declare. -/
structure Program.Describes (p : Program) (s : Solution) : Prop where
  name : p.solutionNames.map Ident.name = [s.name]
  declared : (Declared.ofStatements p.statements).Describes s

end Stencil.Source
