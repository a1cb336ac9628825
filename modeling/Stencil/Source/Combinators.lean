import Stencil.Source.Token

/-!
# Parsers and how they are put together

A parser reads tokens from where it stands, or fails; a parser made of others goes back to where one
of them started if that one fails, and tries the next. What is remembered of failures is **one
record**: the furthest place at which a token was missing, and what could have stood there. Going
back does not touch the record, and neither does success, so that the record of a text that cannot
be read at all says how far into the text one can get.
-/

namespace Stencil.Source

/-! ## Expectations -/

/-- What a syntax error says could have stood in the place of what was found. -/
inductive Expectation where
  | terminal (t : Terminal)
  | endOfInput
  deriving DecidableEq, Repr

namespace Expectation

def symbol (s : Symbol) : Expectation := terminal (.symbol s)

/-- How messages show an expectation. -/
def text : Expectation → String
  | terminal (.keyword k) => "'" ++ k.text ++ "'"
  | terminal (.symbol s) => "'" ++ String.singleton s.char ++ "'"
  | terminal .ident => "'<ident>'"
  | terminal .number => "something else"
  | endOfInput => "end of input"

/-- Expectations in a row, with `or` before the last of several. -/
def listText (es : List Expectation) : String :=
  match es.reverse with
  | [] => ""
  | [e] => e.text
  | last :: before => Text.join ", " (before.reverse.map text) ++ ", or " ++ last.text

end Expectation

/-! ## The record of failures -/

/-- The furthest place, counted in tokens, at which something was missing, and what was. -/
structure Record where
  place : Nat
  expected : List Expectation
  deriving DecidableEq

namespace Record

/-- Nothing was missing yet. -/
def start : Record := ⟨0, []⟩

/-- The record after something was missing at a place: what was missing before it is forgotten, and
    what was missing after it stays. -/
def miss (r : Record) (place : Nat) (e : Expectation) : Record :=
  if r.place < place then ⟨place, [e]⟩
  else if place < r.place ∨ e ∈ r.expected then r
  else ⟨place, r.expected ++ [e]⟩

end Record

/-! ## Parsers -/

/-- Where a parser stands: how many tokens were read, where the last of them ends, and the tokens
    that are left. -/
structure Input where
  place : Nat
  stop : Nat
  rest : List Lexeme
  deriving DecidableEq

namespace Input

/-- Where the next token starts. -/
def start (input : Input) : Nat :=
  match input.rest with
  | [] => input.stop
  | x :: _ => x.span.start

/-- The input after a token. -/
def after (input : Input) (x : Lexeme) (rest : List Lexeme) : Input :=
  ⟨input.place + 1, x.span.stop, rest⟩

end Input

/-- A parser gives a value and the input after it, or nothing. It gives the record in either case. -/
abbrev Parser (α : Type) : Type := Input → Record → Option (α × Input) × Record

namespace Parser

variable {α β γ : Type}

/-! ### Single tokens -/

/-- A token of one kind. -/
def token (e : Expectation) (accept : Lexeme → Option α) : Parser α := fun input r =>
  match input.rest with
  | [] => (none, r.miss input.place e)
  | x :: xs =>
    match accept x with
    | some a => (some (a, input.after x xs), r)
    | none => (none, r.miss input.place e)

/-- A token of a terminal, which is all that matters of it. -/
def just (t : Terminal) : Parser Unit :=
  token (.terminal t) fun x => if x.token.terminal = t then some () else none

/-- The end of the tokens. -/
def finish : Parser Unit := fun input r =>
  match input.rest with
  | [] => (some ((), input), r)
  | _ :: _ => (none, r.miss input.place .endOfInput)

/-! ### One after the other -/

/-- Reads nothing. -/
def succeed (a : α) : Parser α := fun input r => (some (a, input), r)

/-- One parser, and then one that depends on what was read. -/
def bind (p : Parser α) (f : α → Parser β) : Parser β := fun input r =>
  match p input r with
  | (some (a, input'), r') => f a input' r'
  | (none, r') => (none, r')

def map (p : Parser α) (f : α → β) : Parser β := p.bind fun a => succeed (f a)

/-- What was read, with the text from its first token to its last one. -/
def mapWith (p : Parser α) (f : α → Span → β) : Parser β := fun input r =>
  match p input r with
  | (some (a, input'), r') => (some (f a ⟨input.start, input'.stop⟩, input'), r')
  | (none, r') => (none, r')

def andThen (p : Parser α) (q : Parser β) : Parser (α × β) := p.bind fun a => q.map fun b => (a, b)

def ignoreThen (p : Parser α) (q : Parser β) : Parser β := p.bind fun _ => q

def thenIgnore (p : Parser α) (q : Parser β) : Parser α := p.bind fun a => q.map fun _ => a

/-- What stands between two others. -/
def delimitedBy (p : Parser α) (opening : Parser β) (closing : Parser γ) : Parser α :=
  opening.ignoreThen (p.thenIgnore closing)

/-! ### One or another -/

/-- The second parser, if the first one fails. -/
def orElse (p q : Parser α) : Parser α := fun input r =>
  match p input r with
  | (some out, r') => (some out, r')
  | (none, r') => q input r'

/-- The first of the parsers that does not fail. -/
def choice : List (Parser α) → Parser α
  | [] => fun _ r => (none, r)
  | [p] => p
  | p :: ps => p.orElse (choice ps)

/-- What the parser reads, if it does not fail. -/
def orNot (p : Parser α) : Parser (Option α) := (p.map some).orElse (succeed none)

/-! ### One many times

Every round of a repetition reads a token, and so does every way from a recursive parser to itself.
So the tokens that are left bound the number of rounds and the depth of the recursion. -/

/-- Up to so many times, until it fails. -/
def repeatedUpTo (p : Parser α) : Nat → Parser (List α)
  | 0 => succeed []
  | n + 1 => (p.bind fun a => (p.repeatedUpTo n).map (a :: ·)).orElse (succeed [])

/-- As many times as it does not fail. -/
def repeated (p : Parser α) : Parser (List α) := fun input r =>
  p.repeatedUpTo (input.rest.length + 1) input r

/-- Once or more, with separators between. Where nothing follows a separator, it is left unread. -/
def separatedBy1 (p : Parser α) (separator : Parser β) : Parser (List α) :=
  p.bind fun a => (separator.ignoreThen p).repeated.map (a :: ·)

/-- Any number of times, with separators between. -/
def separatedBy (p : Parser α) (separator : Parser β) : Parser (List α) :=
  (p.separatedBy1 separator).orElse (succeed [])

/-- What is read first, combined with all that is read then, from the left. -/
def foldl (p : Parser α) (q : Parser (List β)) (f : α → β → α) : Parser α :=
  p.bind fun a => q.map fun bs => bs.foldl f a

/-- What is read last, combined with all that was read before, from the right. -/
def foldr (p : Parser (List α)) (q : Parser β) (f : α → β → β) : Parser β :=
  p.bind fun as => q.map fun b => as.foldr f b

/-- A parser that may use itself, to a depth. -/
def recursiveUpTo (body : Parser α → Parser α) : Nat → Parser α
  | 0 => fun _ r => (none, r)
  | n + 1 => body fun input r => recursiveUpTo body n input r

/-- A parser that may use itself. -/
def recursive (body : Parser α → Parser α) : Parser α := fun input r =>
  recursiveUpTo body (input.rest.length + 1) input r

end Parser

end Stencil.Source
