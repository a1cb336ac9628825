import Stencil.Format.Graph
import Stencil.Format.Header
import Stencil.Format.Listing
import Stencil.Model.Draft

/-!
# Formats

A format renders a solution as text. A registry holds formats by their ids, sorted by id.
-/

namespace Stencil

/-- A way to render a solution. -/
structure Format where
  id : String
  description : String
  render : Solution → Except Error String

namespace Format

def dot : Format := ⟨"dot", "Graphviz DOT dataflow graph", fun s => .ok s.dot⟩

def json : Format := ⟨"json", "JSON solution manifest", fun s => .ok s.document⟩

/-- Pseudo-code, with or without shared values. -/
def pseudo (share : Bool) : Format :=
  ⟨"pseudo", "target-independent pseudo-code", (·.listing share)⟩

/-- A C++ header for a target. -/
def code (share : Bool) (t : Target) : Format :=
  ⟨t.id, "C++ header, " ++ t.description, (·.header t share)⟩

/-- The same text for every solution. -/
def fixed (id description text : String) : Format := ⟨id, description, fun _ => .ok text⟩

end Format

/-- Formats, sorted by id. -/
structure Registry where
  formats : List Format

namespace Registry

def empty : Registry := ⟨[]⟩

/-- The ids, sorted. -/
def ids (r : Registry) : List String := r.formats.map Format.id

/-- A format in its place among formats that are sorted by id. -/
def insert (f : Format) : List Format → List Format
  | [] => [f]
  | g :: gs => if f.id < g.id then f :: g :: gs else g :: insert f gs

/-- Adds a format of a new id. -/
def register (r : Registry) (f : Format) : Except Error Registry :=
  if f.id ∈ r.ids then .error (.duplicateFormat f.id) else .ok ⟨insert f r.formats⟩

/-- The format with the given id. -/
def lookup (r : Registry) (id : String) : Except Error Format :=
  match r.formats.find? (·.id == id) with
  | some f => .ok f
  | none => .error (.unsupportedFormat id r.ids)

/-- The formats that come with the compiler. -/
def builtin (share : Bool) : Registry :=
  ⟨([Format.dot, Format.pseudo share, Format.json] ++ Target.all.map (Format.code share)).foldr
    insert []⟩

end Registry

/-- Renders a draft's solution. The rendering is recorded once the format is known, before it can
    fail. -/
def Edit.render (r : Registry) (id : String) : Edit String := do
  let f ← ofExcept (r.lookup id)
  let s ← solution
  record (Draft.renderLine s.name id f.description)
  ofExcept (f.render s)

@[inherit_doc Edit.render]
def Draft.render (d : Draft) (r : Registry) (id : String) : Except Error String × Draft :=
  d.run (Edit.render r id)

end Stencil
