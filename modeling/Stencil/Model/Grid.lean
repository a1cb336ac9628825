import Stencil.Model.Error
import Stencil.Text.Identifier
import Stencil.Text.Quoted

/-!
# Grids and points

A grid is a named array over a list of dimensions. A point is an element of a grid, given by one
offset a dimension from where a stencil is applied. Neither can be built wrong: a grid carries the
fact that `Grid.fault?` finds nothing, a point has as many offsets as its grid has dimensions.
-/

namespace Stencil

/-! ## Grids -/

/-- The first fault of dimensions that follow dimensions with the names `seen`. -/
def dimFault? (grid : String) (seen : List String) : List Dim → Option Error
  | [] => none
  | d :: ds =>
    if !isIdentifier d.name then some (.invalidName .dimension d.name)
    else if d.name ∈ seen then some (.invalidDimensions grid (.repeated d.name))
    else if d.isStep && !seen.isEmpty then some (.invalidDimensions grid (.stepNotFirst d.name))
    else dimFault? grid (seen ++ [d.name]) ds

/-- Why a name and dimensions do not make a grid: a name that is no identifier, no dimension, a
    dimension listed twice, or a step dimension that is not the first. -/
def Grid.fault? (name : String) (dims : List Dim) : Option Error :=
  if !isIdentifier name then some (.invalidName .grid name)
  else if dims.isEmpty then some (.arity name 1 0)
  else dimFault? name [] dims

/-- A named array over an ordered list of dimensions. -/
structure Grid where
  name : String
  dims : List Dim
  sound : Grid.fault? name dims = none
  deriving DecidableEq

namespace Grid

/-- The grid with the given name and dimensions. -/
def make (name : String) (dims : List Dim) : Except Error Grid :=
  match h : fault? name dims with
  | some e => .error e
  | none => .ok ⟨name, dims, h⟩

/-- The names of the dimensions. -/
def dimNames (g : Grid) : List String := g.dims.map Dim.name

/-- The step dimension, which is the first one if there is one. -/
def stepDim? (g : Grid) : Option Dim := g.dims.head?.filter Dim.isStep

/-- The grid as it is declared, such as `u(t, x)`. -/
def text (g : Grid) : String := g.name ++ "(" ++ Text.join ", " g.dimNames ++ ")"

end Grid

/-! ## Points -/

/-- An element of a grid, relative to where a stencil is applied. -/
structure Point where
  grid : Grid
  offsets : List Int64
  sound : offsets.length = grid.dims.length
  deriving DecidableEq

namespace Point

/-- The point of a grid with the given offsets. -/
def make (g : Grid) (offsets : List Int64) : Except Error Point :=
  if h : offsets.length = g.dims.length then .ok ⟨g, offsets, h⟩
  else .error (.arity g.name g.dims.length offsets.length)

/-- The dimensions with their offsets, in the order of the grid. -/
def indices (p : Point) : List (Dim × Int64) := p.grid.dims.zip p.offsets

/-- The offset along the step dimension, if the grid has one. -/
def stepOffset? (p : Point) : Option Int64 :=
  match p.indices with
  | (d, offset) :: _ => if d.isStep then some offset else none
  | [] => none

/-- The offset along the dimension of the given name. -/
def offsetOf? (p : Point) (dim : String) : Option Int64 :=
  (p.indices.find? (·.1.name == dim)).map Prod.snd

/-- A dimension shifted by an offset: `x`, `x+2` or `x-1`. -/
def indexText (dim : String) (offset : Int64) : String :=
  if offset = 0 then dim
  else if 0 < offset.toInt then dim ++ "+" ++ toString offset.toInt
  else dim ++ toString offset.toInt

/-- The point as it is written, such as `u(t+1, x-1)`. -/
def text (p : Point) : String :=
  p.grid.name ++ "(" ++ Text.join ", " (p.indices.map fun (d, offset) => indexText d.name offset)
    ++ ")"

end Point

end Stencil
