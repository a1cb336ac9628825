import Stencil.Text.Hidden

/-!
# Quoted text

Text between double quotes in which every character can be seen: the quote, the backslash and the
characters that `isHidden` lists are written as escapes.
-/

namespace Stencil.Text

/-- The code point in lower-case hexadecimal digits, as many as it needs. -/
def hexText (n : Nat) : String := String.ofList (Nat.toDigits 16 n)

/-- A character as it stands between double quotes. -/
def escape (c : Char) : String :=
  if c = '"' then "\\\""
  else if c = '\\' then "\\\\"
  else if c = '\t' then "\\t"
  else if c = '\r' then "\\r"
  else if c = '\n' then "\\n"
  else if c = '\x00' then "\\0"
  else if isHidden c then "\\u\x7b" ++ hexText c.toNat ++ "\x7d"
  else String.singleton c

/-- A text between double quotes. -/
def quote (s : String) : String :=
  "\"" ++ String.join (s.toList.map escape) ++ "\""

/-- Texts with a separator between any two. -/
def join (separator : String) (parts : List String) : String :=
  separator.intercalate parts

end Stencil.Text
