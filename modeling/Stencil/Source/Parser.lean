import Stencil.Source.Combinators
import Stencil.Source.Scan
import Stencil.Source.Tree

/-!
# Parsing

The grammar of the source language:

    program   = statement*
    statement = clause ';'
    clause    = 'solution' ident | 'set' ident '=' number | 'step' ident
              | 'domain' ident (',' ident)* | 'grid' ident '(' [ident (',' ident)*] ')'
              | point '=' expr
    point     = ident '(' [index (',' index)*] ')'
    index     = ident [('+' | '-') number]
    expr      = product (('+' | '-') product)*
    product   = unary (('*' | '/') unary)*
    unary     = '-'* atom
    atom      = number | point | '(' expr ')'

There is a parser for each line of it, and alternatives are tried in the order in which they stand
here. A syntax error is the record of failures that is left if a text is no program.
-/

namespace Stencil.Source

/-! ## Expressions -/

/-- A binary node, from the start of its left operand to the end of its right one. -/
def Expr.join (op : Operator) (lhs rhs : Expr) : Expr :=
  .binary op lhs rhs ⟨lhs.span.start, rhs.span.stop⟩

/-- A left operand with the operator and the operand after it. -/
def Expr.joined (lhs : Expr) (rest : Operator × Expr) : Expr := lhs.join rest.1 rest.2

/-- The expression under a minus sign. -/
def Expr.under (operand : Expr) (minus : Span) : Expr :=
  .neg operand ⟨minus.start, operand.span.stop⟩

namespace Parser

/-- A symbol, as what it stands for. -/
def symbol {α : Type} (s : Symbol) (a : α) : Parser α := (just (.symbol s)).map fun _ => a

def ident : Parser Ident :=
  token (.terminal .ident) fun x =>
    match x.token with
    | .ident name => some ⟨name, x.span⟩
    | _ => none

def number : Parser (Double × Span) :=
  token (.terminal .number) fun x =>
    match x.token with
    | .number v => some (v, x.span)
    | _ => none

/-- A list in parentheses. -/
def inParens {α : Type} (p : Parser α) : Parser α :=
  p.delimitedBy (just (.symbol .openParen)) (just (.symbol .closeParen))

/-! ## Points -/

/-- The sign of an offset; it is a minus. -/
def sign : Parser Bool := choice [symbol .plus false, symbol .minus true]

def index : Parser Index :=
  (ident.andThen (sign.andThen number).orNot).mapWith fun (dim, offset) span =>
    match offset with
    | none => ⟨dim, .zero, span⟩
    | some (negative, v, _) => ⟨dim, if negative then v.neg else v, span⟩

def point : Parser Point :=
  (ident.andThen (inParens (index.separatedBy (just (.symbol .comma))))).mapWith
    fun (grid, indices) span => ⟨grid, indices, span⟩

/-! ## Operands and operators -/

/-- An operand without its signs, given how expressions are parsed. -/
def atom (expr : Parser Expr) : Parser Expr :=
  choice [number.map fun (v, span) => .number v span, point.map .point, inParens expr]

def unary (expr : Parser Expr) : Parser Expr :=
  ((just (.symbol .minus)).mapWith fun _ span => span).repeated.foldr (atom expr)
    fun minus operand => operand.under minus

def productOperator : Parser Operator := choice [symbol .star .mul, symbol .slash .div]

def sumOperator : Parser Operator := choice [symbol .plus .add, symbol .minus .sub]

/-- Operands of one kind, with operators between, which group to the left. -/
def operation (operator : Parser Operator) (operand : Parser Expr) : Parser Expr :=
  operand.foldl (operator.andThen operand).repeated Expr.joined

def product (expr : Parser Expr) : Parser Expr := operation productOperator (unary expr)

def expr : Parser Expr := recursive fun expr => operation sumOperator (product expr)

/-! ## Statements -/

/-- A keyword and a name. -/
def headed (k : Keyword) : Parser Ident := (just (.keyword k)).ignoreThen ident

def setting : Parser Clause :=
  (((headed .set).thenIgnore (just (.symbol .equals))).andThen number).map
    fun (name, v, span) => .set name v span

def domains : Parser Clause :=
  ((just (.keyword .domain)).ignoreThen (ident.separatedBy1 (just (.symbol .comma)))).map .domain

def grid : Parser Clause :=
  ((headed .grid).andThen (inParens (ident.separatedBy (just (.symbol .comma))))).map
    fun (name, dims) => .grid name dims

def equation : Parser Clause :=
  ((point.thenIgnore (just (.symbol .equals))).andThen expr).map fun (lhs, rhs) => .equation lhs rhs

def clause : Parser Clause :=
  choice [(headed .solution).map .solution, setting, (headed .step).map .step, domains, grid,
    equation]

def statement : Parser Statement :=
  (clause.thenIgnore (just (.symbol .semicolon))).mapWith fun clause span => ⟨clause, span⟩

def program : Parser (List Statement) := statement.repeated.thenIgnore finish

end Parser

/-! ## Programs -/

/-- What was found, or the end of the input, and what could have stood there. -/
structure SyntaxError where
  found : Option Lexeme
  expected : List Expectation
  deriving DecidableEq

def SyntaxError.message (e : SyntaxError) : String :=
  let found := match e.found with
    | some x => "'" ++ x.token.text ++ "'"
    | none => "end of input"
  "found " ++ found ++ " expected " ++ Expectation.listText e.expected

/-- Where a syntax error is reported: at what was found, or at the end of the text. -/
def SyntaxError.span (length : Nat) (e : SyntaxError) : Span :=
  match e.found with
  | some x => x.span
  | none => ⟨length, length⟩

/-- The error that a record stands for. -/
def Record.error (r : Record) (xs : List Lexeme) : SyntaxError := ⟨xs[r.place]?, r.expected⟩

/-- From the first token to the last, or the end of the text if there is none. -/
def programSpan (length : Nat) (xs : List Lexeme) : Span :=
  match xs.head?, xs.getLast? with
  | some first, some last => ⟨first.span.start, last.span.stop⟩
  | _, _ => ⟨length, length⟩

/-- **Parsing**: the program that the tokens of a text of the given length make up. -/
def parse (length : Nat) (xs : List Lexeme) : Except SyntaxError Program :=
  match Parser.program ⟨0, 0, xs⟩ .start with
  | (some (statements, _), _) => .ok ⟨statements, programSpan length xs⟩
  | (none, r) => .error (r.error xs)

end Stencil.Source
