import Stencil.Model.Solution
import Stencil.Text.Digest
import Stencil.Text.Json

/-!
# Manifests

The manifest of a solution is a JSON description of its grids and equations, with a fixed order of
members. Its compact form is the **canonical text** of the solution, and the digest of that text is
the solution's **fingerprint**: it changes only if the stencil does.
-/

namespace Stencil

/-- The version of the compiler. -/
def version : String := "0.3.0"

namespace Manifest

def ofOption {α : Type} (f : α → Json) : Option α → Json
  | none => .null
  | some a => f a

def ofDim (d : Dim) : Json := .object [("name", .text d.name), ("kind", .text d.kind.text)]

def ofGrid (g : Grid) : Json :=
  .object [("name", .text g.name), ("dims", .list (g.dims.map ofDim))]

def ofEquation (index : Nat) (e : Equation) : Json :=
  .object
    [("index", .number index),
     ("lhs", .text e.lhs.text),
     ("rhs", .text e.rhs.text),
     ("lhs_step_offset", ofOption (fun o => .number o.toInt) e.lhs.stepOffset?),
     ("num_points", .number e.points.length)]

/-- Equations that are numbered from the given index on. -/
def ofEquations : Nat → List Equation → List Json
  | _, [] => []
  | index, e :: es => ofEquation index e :: ofEquations (index + 1) es

/-- The members of a solution's manifest. -/
def members (s : Solution) : List (String × Json) :=
  [("name", .text s.name),
   ("element_bytes", .number s.width.bytes),
   ("step_dim", ofOption (fun d => .text d.name) s.stepDim?),
   ("domain_dims", .list (s.domainDims.map fun d => .text d.name)),
   ("grids", .list (s.grids.map ofGrid)),
   ("equations", .list (ofEquations 0 s.equations))]

end Manifest

namespace Solution

/-- The manifest of a solution. -/
def manifest (s : Solution) : Json := .object (Manifest.members s)

/-- The canonical text of a solution. -/
def canonical (s : Solution) : String := s.manifest.compact

/-- The digest of the canonical text. -/
def fingerprint (s : Solution) : String := Digest.ofText s.canonical

/-- The manifest with the fingerprint before it, for readers. -/
def document (s : Solution) : String :=
  (Json.object (("fingerprint", .text s.fingerprint) :: Manifest.members s)).pretty ++ "\n"

/-- Where a build comes from: the digest of the source text, the solution's fingerprint and name,
    the element width, and the versions of the manifest and of the compiler. -/
def provenance (s : Solution) (source : String) : String :=
  (Json.object
    [("source_hash", .text (Digest.ofText source)),
     ("fingerprint", .text s.fingerprint),
     ("solution", .text s.name),
     ("element_bytes", .number s.width.bytes),
     ("manifest_schema_version", .number 1),
     ("compiler_version", .text version)]).pretty ++ "\n"

end Solution

end Stencil
