import Stencil.Model.Draft
import Stencil.Source.Problem

/-!
# Elaboration

A program is elaborated statement by statement: names are looked up among what earlier statements
declare, and the solution that the program describes is drafted. A statement with a problem adds its
findings, and the statements after it are still looked at. The program describes a solution if
nothing was found.
-/

namespace Stencil.Source

/-! ## Checked parts -/

/-- A part that may be unusable, with what was found in it. -/
structure Checked (α : Type) where
  value? : Option α
  findings : List Finding

namespace Checked

def ok {α : Type} (a : α) : Checked α := ⟨some a, []⟩

/-- Unusable, for the given reasons. -/
def refused {α : Type} (findings : List Finding) : Checked α := ⟨none, findings⟩

def map {α β : Type} (f : α → β) (a : Checked α) : Checked β := ⟨a.value?.map f, a.findings⟩

/-- Two parts as one. What was found in either is kept. -/
def both {α β γ : Type} (f : α → β → γ) (a : Checked α) (b : Checked β) : Checked γ :=
  ⟨a.value?.bind fun x => b.value?.map (f x), a.findings ++ b.findings⟩

end Checked

/-! ## Points and expressions -/

/-- What is wrong with an index that stands for a dimension of a grid: first its name, then its
    offset. -/
def indexFindings (g : Grid) (position : Nat) (index : Index) (d : Dim) : List Finding :=
  (if index.dim.name = d.name then []
    else [⟨.misnamedIndex position g d.name index.dim.name, index.dim.span⟩])
  ++ (if index.offset.toInt64?.isSome then [] else [⟨.badOffset index.offset, index.span⟩])

/-- What is wrong with indices that stand for dimensions of a grid from the given position on. -/
def indicesFindings (g : Grid) : Nat → List Index → List Dim → List Finding
  | position, index :: indices, d :: ds =>
    indexFindings g position index d ++ indicesFindings g (position + 1) indices ds
  | _, _, _ => []

/-- The point of a grid that a source point stands for. -/
def elaborateIndices (g : Grid) (p : Point) : Checked Stencil.Point :=
  match indicesFindings g 0 p.indices g.dims with
  | [] =>
    match Stencil.Point.make g (p.indices.filterMap (·.offset.toInt64?)) with
    | .ok q => .ok q
    | .error e => .refused [⟨.model e, p.span⟩]
  | findings => .refused findings

/-- The point of a solution that a source point stands for. -/
def elaboratePoint (s : Solution) (p : Point) : Checked Stencil.Point :=
  match s.grid? p.grid.name with
  | none => .refused [⟨.unknownGrid p.grid.name, p.grid.span⟩]
  | some g =>
    if p.indices.length = g.dims.length then elaborateIndices g p
    else .refused [⟨.indexCount g p.indices.length, p.span⟩]

/-- The expression that a source expression stands for. The negative of a number is a number; the
    negative of anything else is its product with minus one. -/
def elaborateExpr (s : Solution) : Expr → Checked Stencil.Expr
  | .number v _ => .ok (.const v)
  | .point p => (elaboratePoint s p).map .point
  | .neg (.number v _) _ => .ok (.const v.neg)
  | .neg e _ => (elaborateExpr s e).map (.binary .mul (.const (Double.ofInt (-1))))
  | .binary op lhs rhs _ => Checked.both (.binary op) (elaborateExpr s lhs) (elaborateExpr s rhs)

/-- Both sides of an equation. -/
def sides (s : Solution) (lhs : Point) (rhs : Expr) : Checked (Stencil.Point × Stencil.Expr) :=
  Checked.both Prod.mk (elaboratePoint s lhs) (elaborateExpr s rhs)

/-! ## Statements -/

/-- A declared dimension and where it was declared. -/
structure DeclaredDim where
  dim : Dim
  span : Span
  deriving DecidableEq

/-- What the statements so far declare: dimensions, where the step dimension was declared, and the
    draft of the solution. -/
structure Scope where
  dims : List DeclaredDim
  step : Option Span
  draft : Draft
  findings : List Finding

namespace Scope

/-- The scope with more findings. -/
def report (σ : Scope) (findings : List Finding) : Scope :=
  { σ with findings := σ.findings ++ findings }

/-- The declared dimension of the given name. -/
def dim? (σ : Scope) (name : String) : Option DeclaredDim :=
  σ.dims.find? (·.dim.name == name)

/-- Declares a dimension of a new name. -/
def declareDim (σ : Scope) (id : Ident) (kind : DimKind) : Scope :=
  match σ.dim? id.name with
  | some prior => σ.report [⟨.repeatedDim id.name prior.dim.kind prior.span, id.span⟩]
  | none =>
    { σ with
      dims := σ.dims ++ [⟨⟨id.name, kind⟩, id.span⟩]
      step := if kind = .step then some id.span else σ.step }

/-- Declares the step dimension, unless there is one. -/
def declareStep (σ : Scope) (id : Ident) : Scope :=
  match σ.step with
  | some first => σ.report [⟨.secondStep id.name first, id.span⟩]
  | none => σ.declareDim id .step

/-- Makes a call on the draft, and reports its refusal. -/
def attempt {α : Type} (σ : Scope) (span : Span) (call : Edit α) : Scope :=
  let (result, draft) := σ.draft.run call
  let σ := { σ with draft := draft }
  match result with
  | .ok _ => σ
  | .error e => σ.report [⟨.model e, span⟩]

/-- The names that no dimension has. -/
def missing (σ : Scope) (ids : List Ident) : List Ident :=
  ids.filter fun id => (σ.dim? id.name).isNone

/-- The dimensions that have the names. -/
def found (σ : Scope) (ids : List Ident) : List Dim :=
  ids.filterMap fun id => (σ.dim? id.name).map DeclaredDim.dim

/-- Declares a grid over declared dimensions. -/
def declareGrid (σ : Scope) (name : Ident) (dims : List Ident) : Scope :=
  match σ.missing dims with
  | [] => σ.attempt name.span (.declareGrid name.name (σ.found dims))
  | unknown => σ.report (unknown.map fun id => ⟨.unknownDim id.name, id.span⟩)

/-- Sets the width of the draft's elements: whether the setting is accepted, and the draft after it.
    -/
def setWidth (draft : Draft) (value : Double) : Bool × Draft :=
  match value.toInt? with
  | some n =>
    if 0 ≤ n then
      let (result, draft) := draft.setElementBytes n.toNat
      (result.isOk, draft)
    else (false, draft)
  | none => (false, draft)

/-- Sets the element width; there is no other setting. -/
def set (σ : Scope) (name : Ident) (value : Double) (valueSpan : Span) : Scope :=
  if name.name = "element_bytes" then
    let (accepted, draft) := setWidth σ.draft value
    let σ := { σ with draft := draft }
    if accepted then σ else σ.report [⟨.unsupportedSetting value, valueSpan⟩]
  else
    σ.report [⟨.unknownSetting name.name, name.span⟩]

/-- Adds an equation if nothing is wrong with either side. -/
def equate (σ : Scope) (lhs : Point) (rhs : Expr) (span : Span) : Scope :=
  let read := sides σ.draft.solution lhs rhs
  let σ := σ.report read.findings
  match read.value? with
  | some (l, r) => σ.attempt span (.equate l r)
  | none => σ

/-- The scope after a statement. The solution's name is settled before. -/
def statement (σ : Scope) (stmt : Statement) : Scope :=
  match stmt.clause with
  | .solution _ => σ
  | .set name value valueSpan => σ.set name value valueSpan
  | .step id => σ.declareStep id
  | .domain ids => ids.foldl (fun σ id => σ.declareDim id .domain) σ
  | .grid name dims => σ.declareGrid name dims
  | .equation lhs rhs => σ.equate lhs rhs stmt.span

end Scope

/-! ## Programs -/

namespace Program

/-- The names that solution statements give. -/
def solutionNames (p : Program) : List Ident :=
  p.statements.filterMap fun stmt =>
    match stmt.clause with
    | .solution id => some id
    | _ => none

/-- The solution's name, and what is wrong with how it is given: it is the first one given, and the
    only one. -/
def header (p : Program) : String × List Finding :=
  match p.solutionNames with
  | [] => ("", [⟨.missingSolution, p.span⟩])
  | first :: others =>
    (first.name, others.map fun id => ⟨.repeatedSolution id.name first.span, id.span⟩)

/-- **Elaboration**: the scope after all statements, with the solution's changes recorded in the
    given sink. -/
def elaborate (p : Program) (log : Option Sink) : Scope :=
  let (name, findings) := p.header
  p.statements.foldl Scope.statement ⟨[], none, Draft.new name log, findings⟩

end Program

/-- The draft of a program in which nothing was found. -/
def Scope.draft? (σ : Scope) : Option Draft :=
  if σ.findings.isEmpty then some σ.draft else none

end Stencil.Source
