/-!
# JSON text

JSON values and their two written forms: compact, and indented by two blanks a level. Objects keep
the order of their members.
-/

namespace Stencil

/-- A JSON value. Numbers are integers here. -/
inductive Json where
  | null
  | number (n : Int)
  | text (s : String)
  | list (items : List Json)
  | object (members : List (String × Json))

namespace Json

/-- The hexadecimal digit of a number below sixteen. -/
def hexDigit (n : Nat) : Char := Nat.digitChar (n % 16)

/-- A character as it stands in a JSON string. -/
def escape (c : Char) : String :=
  if c = '"' then "\\\""
  else if c = '\\' then "\\\\"
  else if c = '\x08' then "\\b"
  else if c = '\x0c' then "\\f"
  else if c = '\n' then "\\n"
  else if c = '\r' then "\\r"
  else if c = '\t' then "\\t"
  else if c.toNat < 0x20 then
    "\\u00" ++ String.ofList [hexDigit (c.toNat / 16), hexDigit c.toNat]
  else String.singleton c

/-- A JSON string. -/
def quote (s : String) : String :=
  "\"" ++ String.join (s.toList.map escape) ++ "\""

mutual

/-- The form without blanks. -/
def compact : Json → String
  | null => "null"
  | number n => toString n
  | text s => quote s
  | list items => "[" ++ compactItems items ++ "]"
  | object members => "\x7b" ++ compactMembers members ++ "\x7d"

/-- Items with commas between them. -/
def compactItems : List Json → String
  | [] => ""
  | [v] => compact v
  | v :: w :: rest => compact v ++ "," ++ compactItems (w :: rest)

/-- Members with commas between them. -/
def compactMembers : List (String × Json) → String
  | [] => ""
  | [(k, v)] => quote k ++ ":" ++ compact v
  | (k, v) :: w :: rest => quote k ++ ":" ++ compact v ++ "," ++ compactMembers (w :: rest)

end

/-- A new line, indented to the given level. -/
def newLine (level : Nat) : String :=
  "\n" ++ String.ofList (List.replicate (2 * level) ' ')

mutual

/-- The form with one item a line, at the given level of indentation. Empty lists and objects stay
    on one line. -/
def indented (level : Nat) : Json → String
  | null => "null"
  | number n => toString n
  | text s => quote s
  | list [] => "[]"
  | list (v :: rest) =>
    "[" ++ indentedItems (level + 1) (v :: rest) ++ newLine level ++ "]"
  | object [] => "\x7b\x7d"
  | object (m :: rest) =>
    "\x7b" ++ indentedMembers (level + 1) (m :: rest) ++ newLine level ++ "\x7d"

/-- Items, each on a new line, with commas between them. -/
def indentedItems (level : Nat) : List Json → String
  | [] => ""
  | [v] => newLine level ++ indented level v
  | v :: w :: rest => newLine level ++ indented level v ++ "," ++ indentedItems level (w :: rest)

/-- Members, each on a new line, with commas between them. -/
def indentedMembers (level : Nat) : List (String × Json) → String
  | [] => ""
  | [(k, v)] => newLine level ++ quote k ++ ": " ++ indented level v
  | (k, v) :: w :: rest =>
    newLine level ++ quote k ++ ": " ++ indented level v ++ "," ++ indentedMembers level (w :: rest)

end

/-- The form for readers. -/
def pretty (v : Json) : String := indented 0 v

end Json

end Stencil
