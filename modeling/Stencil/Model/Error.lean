import Stencil.Model.Dim

/-!
# Errors

Everything that a call on the model, a format or a file can refuse, by its cause. The wording is in
`Error.message` alone.
-/

namespace Stencil

/-- What a name is the name of. -/
inductive NameRole where
  | grid | dimension
  deriving DecidableEq, Repr

/-- Why a list of dimensions does not make a grid. -/
inductive DimFault where
  | repeated (dim : String)
  | stepNotFirst (dim : String)
  | secondStep (existing requested : String)
  deriving DecidableEq, Repr

/-- Why an equation cannot be computed step by step. -/
inductive CausalityFault where
  | noStep (grid : String)
  | notLater (lhs rhs : Int64)
  deriving DecidableEq

/-- Why a file or a sink cannot be used. -/
inductive IoFault where
  | notFound | isDirectory | notDirectory | nameTooLong | notText | full
  /-- Any other reason, as the system words it. -/
  | other (reason : String)
  deriving DecidableEq, Repr

inductive Error where
  | arity (name : String) (expected actual : Nat)
  | duplicateName (name solution : String)
  | unknownGrid (name solution : String)
  | causality (equation : String) (fault : CausalityFault)
  | divisionByZero (expr : String)
  | unsupportedWidth (bytes : Nat)
  | unsupportedFormat (id : String) (available : List String)
  | indexOutOfRange (index length : Nat)
  | invalidName (role : NameRole) (name : String)
  | invalidDimensions (grid : String) (fault : DimFault)
  | dimensionConflict (name : String) (existing requested : DimKind)
  | duplicateFormat (id : String)
  | io (path : String) (fault : IoFault)
  deriving DecidableEq

/-! ## Messages -/

def NameRole.text : NameRole → String
  | grid => "grid"
  | dimension => "dimension"

def DimFault.message : DimFault → String
  | repeated dim => s!"dimension '{dim}' appears more than once"
  | stepNotFirst dim => s!"step dimension '{dim}' must be listed first"
  | secondStep existing requested =>
    s!"solution already uses step dimension '{existing}', cannot add '{requested}'"

def CausalityFault.message : CausalityFault → String
  | noStep grid => s!"grid '{grid}' has no step dimension"
  | notLater lhs rhs =>
    s!"LHS step offset {lhs.toInt} is not later than RHS step offset {rhs.toInt}"

def IoFault.message : IoFault → String
  | notFound => "No such file or directory (os error 2)"
  | isDirectory => "Is a directory (os error 21)"
  | notDirectory => "Not a directory (os error 20)"
  | nameTooLong => "File name too long (os error 36)"
  | notText => "stream did not contain valid UTF-8"
  | full => "sink full"
  | other reason => reason

def Error.message : Error → String
  | arity name expected actual =>
    s!"arity mismatch for '{name}': expected {expected} value(s), got {actual}"
  | duplicateName name solution => s!"grid '{name}' already exists in solution '{solution}'"
  | unknownGrid name solution => s!"grid '{name}' is not registered in solution '{solution}'"
  | causality equation fault => s!"causality violation in '{equation}': {fault.message}"
  | divisionByZero expr => s!"division by zero constant in '{expr}'"
  | unsupportedWidth bytes => s!"unsupported element width {bytes} bytes (expected 4 or 8)"
  | unsupportedFormat id available =>
    let ids := ", ".intercalate available
    s!"unsupported format '{id}' (available: {ids})"
  | indexOutOfRange index length => s!"index {index} out of range (length {length})"
  | invalidName role name =>
    s!"invalid {role.text} name '{name}': expected [A-Za-z_][A-Za-z0-9_]*"
  | invalidDimensions grid fault => s!"invalid dimensions for grid '{grid}': {fault.message}"
  | dimensionConflict name existing requested =>
    s!"dimension '{name}' is already declared as {existing.text} (requested {requested.text})"
  | duplicateFormat id => s!"format '{id}' is already registered"
  | io path fault => s!"{path}: {fault.message}"

end Stencil
