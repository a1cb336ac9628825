import Stencil.Number.Style
import Stencil.Source.Span

/-!
# Tokens

The words of the source language. A terminal is what the grammar sees of a token: all numbers are
one terminal, and so are all identifiers.
-/

namespace Stencil.Source

/-- The reserved words. -/
inductive Keyword where
  | solution | set | step | domain | grid
  deriving DecidableEq, Repr

/-- The punctuation and the operators. -/
inductive Symbol where
  | openParen | closeParen | comma | semicolon | equals | plus | minus | star | slash
  deriving DecidableEq, Repr

/-- A word of the source language. -/
inductive Token where
  | keyword (k : Keyword)
  | symbol (s : Symbol)
  | number (value : Double)
  | ident (name : String)
  deriving DecidableEq

/-- What the grammar sees of a token. -/
inductive Terminal where
  | keyword (k : Keyword)
  | symbol (s : Symbol)
  | number
  | ident
  deriving DecidableEq, Repr

/-- A token and where it stands. -/
structure Lexeme where
  token : Token
  span : Span
  deriving DecidableEq

/-! ## Text -/

def Keyword.text : Keyword → String
  | solution => "solution"
  | set => "set"
  | step => "step"
  | domain => "domain"
  | grid => "grid"

/-- All reserved words. -/
def Keyword.all : List Keyword := [.solution, .set, .step, .domain, .grid]

/-- The reserved word that a text is. -/
def Keyword.ofText? (s : String) : Option Keyword := all.find? (·.text == s)

def Symbol.char : Symbol → Char
  | openParen => '('
  | closeParen => ')'
  | comma => ','
  | semicolon => ';'
  | equals => '='
  | plus => '+'
  | minus => '-'
  | star => '*'
  | slash => '/'

/-- All symbols. -/
def Symbol.all : List Symbol :=
  [.openParen, .closeParen, .comma, .semicolon, .equals, .plus, .minus, .star, .slash]

/-- The symbol that a character is. -/
def Symbol.ofChar? (c : Char) : Option Symbol := all.find? (·.char == c)

/-- How messages show a token: an identifier without its name, a number by its value. -/
def Token.text : Token → String
  | keyword k => k.text
  | symbol s => String.singleton s.char
  | number x => x.text
  | ident _ => "<ident>"

/-- The terminal of a token. -/
def Token.terminal : Token → Terminal
  | keyword k => .keyword k
  | symbol s => .symbol s
  | number _ => .number
  | ident _ => .ident

end Stencil.Source
