import Stencil.Model.Grid
import Stencil.Source.Diagnostic
import Stencil.Source.Parser

/-!
# Problems

What can be wrong with a source text, by its cause, and how each cause is reported. Every problem
is an error.
-/

namespace Stencil.Source

inductive Problem where
  /-- A character from which no token starts. -/
  | stray (s : Stray)
  /-- A token that cannot follow the ones before it. -/
  | unexpected (e : SyntaxError)
  /-- No solution statement. -/
  | missingSolution
  /-- A solution statement after the first one. -/
  | repeatedSolution (name : String) (first : Span)
  | unknownSetting (name : String)
  /-- A setting of the element width to something else than four or eight. -/
  | unsupportedSetting (value : Double)
  /-- A width asked for from outside the source that is not supported. -/
  | unsupportedOverride (e : Error)
  | repeatedDim (name : String) (kind : DimKind) (first : Span)
  | secondStep (name : String) (first : Span)
  | unknownDim (name : String)
  | unknownGrid (name : String)
  /-- An index whose name is not that of the grid's dimension. -/
  | misnamedIndex (position : Nat) (grid : Grid) (expected found : String)
  /-- More or fewer indices than the grid has dimensions. -/
  | indexCount (grid : Grid) (actual : Nat)
  /-- An offset that is no 64-bit integer. -/
  | badOffset (value : Double)
  /-- A refusal of the model. -/
  | model (e : Error)
  deriving DecidableEq

namespace Problem

/-- The code of a refusal of the model. -/
def modelCode : Error → String
  | .dimensionConflict _ _ _ => "E0110"
  | .duplicateName _ _ => "E0121"
  | .arity _ _ _ => "E0122"
  | .invalidDimensions _ _ => "E0122"
  | .invalidName _ _ => "E0122"
  | .unknownGrid _ _ => "E0130"
  | .causality _ _ => "E0140"
  | .divisionByZero _ => "E0141"
  | _ => "E0199"

/-- The code of a problem. A code never changes its meaning. -/
def code : Problem → String
  | stray _ => "E0001"
  | unexpected _ => "E0001"
  | missingSolution => "E0100"
  | repeatedSolution _ _ => "E0101"
  | unknownSetting _ => "E0102"
  | unsupportedSetting _ => "E0103"
  | unsupportedOverride _ => "E0103"
  | repeatedDim _ _ _ => "E0110"
  | secondStep _ _ => "E0111"
  | unknownDim _ => "E0120"
  | unknownGrid _ => "E0130"
  | misnamedIndex _ _ _ _ => "E0131"
  | indexCount _ _ => "E0132"
  | badOffset _ => "E0133"
  | model e => modelCode e

def message : Problem → String
  | stray s => s.message
  | unexpected e => e.message
  | missingSolution => "missing solution name"
  | repeatedSolution name _ => s!"duplicate solution name '{name}'"
  | unknownSetting name => s!"unknown setting '{name}'"
  | unsupportedSetting value => s!"unsupported element_bytes value {value.text}"
  | unsupportedOverride e => s!"--element-bytes: {e.message}"
  | repeatedDim name kind _ => s!"dimension '{name}' is already declared as {kind.text}"
  | secondStep name _ => s!"second step dimension '{name}'"
  | unknownDim name => s!"unknown dimension '{name}'"
  | unknownGrid name => s!"unknown grid '{name}'"
  | misnamedIndex position grid expected found =>
    s!"index {position} of '{grid.name}' must be '{expected}', found '{found}'"
  | indexCount grid actual =>
    s!"grid '{grid.name}' takes {grid.dims.length} index(es), got {actual}"
  | badOffset value => s!"offset {value.text} is not a 64-bit integer"
  | model e => e.message

/-- How to mend a problem, where there is something to say. -/
def hint? : Problem → Option String
  | missingSolution => some "add `solution NAME;` to the source"
  | unknownSetting _ => some "known settings: element_bytes"
  | unsupportedSetting _ => some "use 4 (float) or 8 (double)"
  | secondStep _ _ => some "a solution advances along exactly one step dimension"
  | unknownDim name => some s!"declare it with `step {name};` or `domain {name};`"
  | unknownGrid name => some s!"declare it with `grid {name}(...);`"
  | misnamedIndex _ grid _ _ => some s!"indices follow the declaration {grid.text}"
  | indexCount grid _ => some s!"write it as {grid.text}"
  | model (.causality _ _) =>
    some "the written point must be at a later step than every point it reads"
  | _ => none

/-- The earlier place that a problem refers to. -/
def related : Problem → List Related
  | repeatedSolution _ first => [⟨first, "first named here"⟩]
  | repeatedDim _ _ first => [⟨first, "first declared here"⟩]
  | secondStep _ first => [⟨first, "step dimension declared here"⟩]
  | _ => []

end Problem

/-- A problem and where it is. -/
structure Finding where
  problem : Problem
  span : Span
  deriving DecidableEq

/-- How a finding is reported. -/
def Finding.diagnostic (f : Finding) : Diagnostic :=
  ⟨.error, some f.problem.code, f.span, f.problem.message, f.problem.hint?, f.problem.related⟩

end Stencil.Source
