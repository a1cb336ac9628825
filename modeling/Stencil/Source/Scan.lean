import Stencil.Number.Numeral
import Stencil.Source.Token

/-!
# Scanning

A source text is cut into pieces from left to right: blanks and comments, tokens, and stray
characters from which no token starts. Each piece is the longest one that can be cut off. The
pieces together are the text, so that a token's span follows from the lengths of the pieces before
it.
-/

namespace Stencil.Source

/-- What is cut off the front of a text. -/
inductive Piece where
  | blank (text : List Char)
  | token (token : Token) (text : List Char)
  | stray (c : Char)
  deriving DecidableEq

/-- The characters of a piece. -/
def Piece.text : Piece → List Char
  | blank text => text
  | token _ text => text
  | stray c => [c]

/-! ## Character classes -/

def isBlank (c : Char) : Bool := c == ' ' || c == '\t' || c == '\r' || c == '\n'

/-- The rest of a comment runs up to the end of the line. -/
def inComment (c : Char) : Bool := c != '\n'

/-! ## Pieces -/

/-- The token that a whole word is. -/
def wordToken (word : String) : Token :=
  match Keyword.ofText? word with
  | some k => .keyword k
  | none => .ident word

/-- The longest run of a class of characters after a first character, and what follows it. -/
def run (inClass : Char → Bool) (c : Char) (cs : List Char) : List Char × List Char :=
  (c :: cs.takeWhile inClass, cs.dropWhile inClass)

/-- The first piece of a text and what follows it. -/
def firstPiece (c : Char) (cs : List Char) : Piece × List Char :=
  if isBlank c then
    let (text, rest) := run isBlank c cs
    (.blank text, rest)
  else if c = '#' then
    let (text, rest) := run inComment c cs
    (.blank text, rest)
  else if isLetter c then
    let (text, rest) := run isLetterOrDigit c cs
    (.token (wordToken (String.ofList text)) text, rest)
  else
    match Symbol.ofChar? c, Numeral.take (c :: cs) with
    | some s, _ => (.token (.symbol s) [c], cs)
    | none, some (n, rest) => (.token (.number (n.value.toDouble false)) n.text, rest)
    | none, none => (.stray c, cs)

theorem length_dropWhile_le (p : Char → Bool) (cs : List Char) :
    (cs.dropWhile p).length ≤ cs.length :=
  (List.dropWhile_sublist p).length_le

/-- A piece takes at least one character. -/
theorem length_firstPiece_le (c : Char) (cs : List Char) :
    (firstPiece c cs).2.length ≤ cs.length := by
  unfold firstPiece run
  split
  · exact length_dropWhile_le _ _
  split
  · exact length_dropWhile_le _ _
  split
  · exact length_dropWhile_le _ _
  split
  · simp
  · rename_i h
    exact Nat.le_of_lt_succ (Numeral.length_take_lt h)
  · simp

/-- The pieces of a text, in order. -/
def pieces : List Char → List Piece
  | [] => []
  | c :: cs => (firstPiece c cs).1 :: pieces (firstPiece c cs).2
termination_by cs => cs.length
decreasing_by exact Nat.lt_succ_of_le (length_firstPiece_le c cs)

/-! ## Places -/

/-- Pieces with their spans, the first one starting at the given offset. -/
def locate : Nat → List Piece → List (Piece × Span)
  | _, [] => []
  | start, p :: ps =>
    let stop := start + byteLength p.text
    (p, ⟨start, stop⟩) :: locate stop ps

/-- A character from which no token starts. -/
structure Stray where
  char : Char
  span : Span
  deriving DecidableEq, Repr

def Stray.message (s : Stray) : String :=
  "unexpected character: " ++ Text.quote (String.singleton s.char)

/-- The tokens and the stray characters of a text. -/
structure Scan where
  lexemes : List Lexeme
  strays : List Stray
  deriving DecidableEq

/-- The lexeme that a located piece is. -/
def lexeme? : Piece × Span → Option Lexeme
  | (.token t _, span) => some ⟨t, span⟩
  | _ => none

/-- The stray character that a located piece is. -/
def stray? : Piece × Span → Option Stray
  | (.stray c, span) => some ⟨c, span⟩
  | _ => none

/-- **Scanning** never fails: stray characters are set aside and the tokens around them kept. -/
def scan (source : String) : Scan :=
  let located := locate 0 (pieces source.toList)
  ⟨located.filterMap lexeme?, located.filterMap stray?⟩

end Stencil.Source
