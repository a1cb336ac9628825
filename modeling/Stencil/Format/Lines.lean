import Stencil.Text.Identifier

/-!
# Lines of generated text
-/

namespace Stencil

/-- Lines, each with its end. -/
def unlines (lines : List String) : String := String.join (lines.map (· ++ "\n"))

/-- A name with an underscore for every character that an identifier cannot have. -/
def sanitize (name : String) : String :=
  String.ofList (name.toList.map fun c => if isLetterOrDigit c then c else '_')

end Stencil
