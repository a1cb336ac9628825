import Stencil.Source.Span

/-!
# Diagnostics

A message about a span of a source text, with a stable code if it has one, perhaps a hint, and
other spans that explain it.
-/

namespace Stencil.Source

inductive Severity where
  | error | warning
  deriving DecidableEq, Repr

def Severity.text : Severity → String
  | error => "error"
  | warning => "warning"

/-- Another span and what it shows. -/
structure Related where
  span : Span
  label : String
  deriving DecidableEq, Repr

structure Diagnostic where
  severity : Severity
  code : Option String
  span : Span
  message : String
  hint : Option String
  related : List Related
  deriving DecidableEq, Repr

/-- The diagnostic as it is printed, its place apart. -/
def Diagnostic.text (d : Diagnostic) : String :=
  d.severity.text ++ (d.code.map fun c => "[" ++ c ++ "]").getD "" ++ ": " ++ d.message
    ++ (d.hint.map fun h => "\n  hint: " ++ h).getD ""

end Stencil.Source
