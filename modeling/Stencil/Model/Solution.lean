import Stencil.Model.Equation
import Stencil.Model.Width

/-!
# Solutions

A solution is a named set of grids and the equations over them. This module has its tables, the checks
that a new grid or a new equation has to pass, and the entries that are made for it. The calls that
check first and enter then are those of drafts.
-/

namespace Stencil

/-- Grids, equations over them, and the width of their elements. `dims` lists the dimensions of the
    grids in the order in which they were first used. -/
structure Solution where
  name : String
  dims : List Dim
  grids : List Grid
  equations : List Equation
  width : Width
  deriving DecidableEq

namespace Solution

/-- The solution without grids, with elements of four bytes. -/
def new (name : String) : Solution := ⟨name, [], [], [], .single⟩

/-- The grid of the given name. -/
def grid? (s : Solution) (name : String) : Option Grid := s.grids.find? (·.name == name)

/-- The dimension of the given name. -/
def dim? (s : Solution) (name : String) : Option Dim := s.dims.find? (·.name == name)

/-- The step dimension. -/
def stepDim? (s : Solution) : Option Dim := s.dims.find? Dim.isStep

/-- The domain dimensions, in the order of their first use. -/
def domainDims (s : Solution) : List Dim := s.dims.filter (!·.isStep)

/-! ## Grids -/

/-- Why a dimension of a new grid does not go with the dimensions in use. -/
def conflict? (s : Solution) (grid : String) (d : Dim) : Option Error :=
  match s.dim? d.name, s.stepDim? with
  | some existing, _ =>
    if existing.kind = d.kind then none
    else some (.dimensionConflict d.name existing.kind d.kind)
  | none, some step =>
    if d.isStep then some (.invalidDimensions grid (.secondStep step.name d.name)) else none
  | none, none => none

/-- The dimensions in use with one more, unless its name is there already. -/
def insertDim (dims : List Dim) (d : Dim) : List Dim :=
  if dims.any (·.name == d.name) then dims else dims ++ [d]

/-- Enters a dimension among those in use. -/
def enterDim (s : Solution) (d : Dim) : Solution := { s with dims := insertDim s.dims d }

/-- Enters a grid, without its dimensions. -/
def enterGrid (s : Solution) (g : Grid) : Solution := { s with grids := s.grids ++ [g] }

/-- Why a name cannot be that of a new grid. -/
def nameFault? (s : Solution) (name : String) : Option Error :=
  if (s.grid? name).isSome then some (.duplicateName name s.name) else none

/-! ## Equations -/

/-- The solution has the very grid that the point belongs to. -/
def owns (s : Solution) (p : Point) : Bool := s.grid? p.grid.name == some p.grid

/-- Why a point cannot stand in an equation of the solution. -/
def ownerFault? (s : Solution) (p : Point) : Option Error :=
  if s.owns p then none else some (.unknownGrid p.grid.name s.name)

/-- Enters an equation. -/
def enterEquation (s : Solution) (e : Equation) : Solution :=
  { s with equations := s.equations ++ [e] }

/-- The equation with the given index. -/
def equation (s : Solution) (index : Nat) : Except Error Equation :=
  match s.equations[index]? with
  | some e => .ok e
  | none => .error (.indexOutOfRange index s.equations.length)

/-! ## Summary -/

/-- A summary for developers. -/
def summary (s : Solution) : String :=
  "Solution \x7b name: " ++ Text.quote s.name
    ++ ", grids: [" ++ Text.join ", " (s.grids.map fun g => Text.quote g.name)
    ++ "], equations: " ++ toString s.equations.length
    ++ ", element_bytes: " ++ toString s.width.bytes ++ " \x7d"

end Solution

end Stencil
