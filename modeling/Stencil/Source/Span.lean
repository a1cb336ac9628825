import Stencil.Text.Quoted

/-!
# Places in a source text

A place in a text is a byte offset into its UTF-8 encoding, and a span runs from one place to
another, its end excluded. For readers a place is a line and a column, both counted from one, the
column in characters; only `\n` ends a line.
-/

namespace Stencil.Source

/-- The bytes from `start` to before `stop`. -/
structure Span where
  start : Nat
  stop : Nat
  deriving DecidableEq, Repr, Inhabited

/-- The number of bytes that encode the characters. -/
def byteLength (cs : List Char) : Nat := cs.foldr (fun c n => c.utf8Size + n) 0

/-- The characters before a byte offset: all of them if it lies past the end, and `none` if it lies
    inside a character. -/
def charsBefore? : List Char → Nat → Option (List Char)
  | _, 0 => some []
  | [], _ + 1 => some []
  | c :: cs, n + 1 =>
    if n + 1 < c.utf8Size then none
    else (charsBefore? cs (n + 1 - c.utf8Size)).map (c :: ·)

/-- A line and a column, counted from one. -/
structure Position where
  line : Nat
  column : Nat
  deriving DecidableEq, Repr, Inhabited

namespace Position

/-- The position of the first character. -/
def origin : Position := ⟨1, 1⟩

/-- The position after a character. -/
def advance (p : Position) (c : Char) : Position :=
  if c = '\n' then ⟨p.line + 1, 1⟩ else ⟨p.line, p.column + 1⟩

/-- The position after some characters from the start of a text. -/
def after (cs : List Char) : Position := cs.foldl advance origin

end Position

/-- The position of a byte offset in a text. There is none inside a character. -/
def position? (source : String) (offset : Nat) : Option Position :=
  (charsBefore? source.toList offset).map Position.after

end Stencil.Source
