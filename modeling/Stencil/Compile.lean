import Stencil.Format.Registry
import Stencil.Source.FrontEnd

/-!
# Compilation

From a source text to an artifact: the front end, then a format.
-/

namespace Stencil

/-- Why there is no artifact: findings in the source, or a refusal by the format. -/
inductive CompileError where
  | source (diagnostics : List Source.Diagnostic)
  | format (e : Error)

def CompileError.message : CompileError → String
  | source diagnostics => toString diagnostics.length ++ " error(s) in stencil source"
  | format e => e.message

/-- What a compilation can be asked for besides its format. -/
structure CompileOptions where
  /-- Replaces the element width that the source sets. -/
  elementBytes : Option Nat
  /-- Shares equal values within an equation. -/
  share : Bool

/-- **Compiles** a source text with a format. -/
def compile (source format : String) (options : CompileOptions) : Except CompileError String :=
  let outcome := Source.compileSource source options.elementBytes none
  match outcome.draft? with
  | none => .error (.source outcome.diagnostics)
  | some draft =>
    match (draft.render (.builtin options.share) format).1 with
    | .ok text => .ok text
    | .error e => .error (.format e)

end Stencil
