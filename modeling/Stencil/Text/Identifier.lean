/-!
# Identifiers

The names that source texts and generated code can use: a letter, then letters and digits, of the
ASCII alphabet. The underscore counts as a letter.
-/

namespace Stencil

/-- One of the ten digits. -/
def isDigit (c : Char) : Bool := '0' ≤ c && c ≤ '9'

/-- A letter of the ASCII alphabet or the underscore. -/
def isLetter (c : Char) : Bool :=
  ('a' ≤ c && c ≤ 'z') || ('A' ≤ c && c ≤ 'Z') || c == '_'

def isLetterOrDigit (c : Char) : Bool := isLetter c || isDigit c

/-- A letter, then letters and digits. -/
def isIdentifier (s : String) : Bool :=
  match s.toList with
  | [] => false
  | c :: cs => isLetter c && cs.all isLetterOrDigit

end Stencil
