/-!
# Dimensions

A stencil is applied along one step dimension, which counts time steps, and any number of domain
dimensions, which span space. A dimension has no identity beyond its name and its kind.
-/

namespace Stencil

inductive DimKind where
  | step | domain
  deriving DecidableEq, Repr

def DimKind.text : DimKind → String
  | step => "step"
  | domain => "domain"

/-- A named axis. -/
structure Dim where
  name : String
  kind : DimKind
  deriving DecidableEq, Repr

def Dim.isStep (d : Dim) : Bool := d.kind == .step

end Stencil
