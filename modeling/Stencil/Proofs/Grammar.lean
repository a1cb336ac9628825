import Mathlib
import Stencil.Source.Parser

/-!
# The grammar

The derivations of the source language as data, a constructor for each production:

    program   = statement*
    statement = clause ';'
    clause    = 'solution' ident | 'set' ident '=' number | 'step' ident
              | 'domain' ident (',' ident)* | 'grid' ident '(' [ident (',' ident)*] ')'
              | point '=' expr
    point     = ident '(' [index (',' index)*] ')'
    index     = ident [('+' | '-') number]
    expr      = product terms
    terms     = [('+' | '-') product terms]
    product   = unary factors
    factors   = [('*' | '/') unary factors]
    unary     = atom | '-' unary
    atom      = number | point | '(' expr ')'

A derivation knows where each of its terminals stands. So it has `lexemes`, the tokens that it
derives, and a `tree`, what it stands for. The repetitions `terms` and `factors` take all that comes
before them as their left operand; that is what makes the operators associate to the left.

The grammar is unambiguous: tokens have one derivation at most (`Program.lexemes_injective`). One
token decides how a derivation goes on, so two derivations that start alike are alike, if what
follows cannot extend them.
-/

namespace Stencil.Source

/-! ## Terminals -/

def Keyword.lexeme (k : Keyword) (span : Span) : Lexeme := ⟨.keyword k, span⟩

def Symbol.lexeme (s : Symbol) (span : Span) : Lexeme := ⟨.symbol s, span⟩

def Ident.lexeme (n : Ident) : Lexeme := ⟨.ident n.name, n.span⟩

/-- A number where it is written. -/
structure Number where
  value : Double
  span : Span

def Number.lexeme (n : Number) : Lexeme := ⟨.number n.value, n.span⟩

@[simp] theorem Keyword.lexeme_inj {k k' : Keyword} {a b : Span} :
    k.lexeme a = k'.lexeme b ↔ k = k' ∧ a = b := by simp [Keyword.lexeme]

@[simp] theorem Symbol.lexeme_inj {s s' : Symbol} {a b : Span} :
    s.lexeme a = s'.lexeme b ↔ s = s' ∧ a = b := by simp [Symbol.lexeme]

@[simp] theorem Ident.lexeme_inj {n n' : Ident} : n.lexeme = n'.lexeme ↔ n = n' := by
  cases n; cases n'; simp [Ident.lexeme]

@[simp] theorem Number.lexeme_inj {n n' : Number} : n.lexeme = n'.lexeme ↔ n = n' := by
  cases n; cases n'; simp [Number.lexeme]

@[simp] theorem Keyword.lexeme_ne_ident (k : Keyword) (a : Span) (n : Ident) :
    k.lexeme a ≠ n.lexeme := by simp [Keyword.lexeme, Ident.lexeme]

@[simp] theorem Ident.lexeme_ne_keyword (n : Ident) (k : Keyword) (a : Span) :
    n.lexeme ≠ k.lexeme a := by simp [Keyword.lexeme, Ident.lexeme]

@[simp] theorem Symbol.lexeme_ne_ident (s : Symbol) (a : Span) (n : Ident) :
    s.lexeme a ≠ n.lexeme := by simp [Symbol.lexeme, Ident.lexeme]

@[simp] theorem Ident.lexeme_ne_symbol (n : Ident) (s : Symbol) (a : Span) :
    n.lexeme ≠ s.lexeme a := by simp [Symbol.lexeme, Ident.lexeme]

@[simp] theorem Symbol.lexeme_ne_number (s : Symbol) (a : Span) (n : Number) :
    s.lexeme a ≠ n.lexeme := by simp [Symbol.lexeme, Number.lexeme]

@[simp] theorem Number.lexeme_ne_symbol (n : Number) (s : Symbol) (a : Span) :
    n.lexeme ≠ s.lexeme a := by simp [Symbol.lexeme, Number.lexeme]

@[simp] theorem Ident.lexeme_ne_number (n : Ident) (m : Number) : n.lexeme ≠ m.lexeme := by
  simp [Ident.lexeme, Number.lexeme]

@[simp] theorem Number.lexeme_ne_ident (m : Number) (n : Ident) : m.lexeme ≠ n.lexeme := by
  simp [Ident.lexeme, Number.lexeme]

namespace Grammar

/-- `'+' | '-'`. -/
inductive Sign where
  | plus | minus

def Sign.symbol : Sign → Symbol
  | plus => .plus
  | minus => .minus

def Sign.operator : Sign → Operator
  | plus => .add
  | minus => .sub

/-- `'*' | '/'`. -/
inductive Scale where
  | star | slash

def Scale.symbol : Scale → Symbol
  | star => .star
  | slash => .slash

def Scale.operator : Scale → Operator
  | star => .mul
  | slash => .div

/-! ## Lists -/

/-- `item (',' item)*`, with the spans of the commas. -/
structure Separated (α : Type) where
  first : α
  rest : List (Span × α)

namespace Separated

variable {α : Type}

def items (s : Separated α) : List α := s.first :: s.rest.map Prod.snd

/-- The tokens of `(',' item)*`. -/
def restLexemes (f : α → List Lexeme) (rest : List (Span × α)) : List Lexeme :=
  rest.flatMap fun (comma, a) => Symbol.comma.lexeme comma :: f a

def lexemes (f : α → List Lexeme) (s : Separated α) : List Lexeme :=
  f s.first ++ restLexemes f s.rest

end Separated

/-- The items of `[item (',' item)*]`. -/
def listItems {α : Type} : Option (Separated α) → List α
  | none => []
  | some s => s.items

/-- The tokens of `[item (',' item)*]`. -/
def listLexemes {α : Type} (f : α → List Lexeme) : Option (Separated α) → List Lexeme
  | none => []
  | some s => s.lexemes f

/-! ## Points -/

/-- `('+' | '-') number`. -/
structure Offset where
  sign : Sign
  signSpan : Span
  number : Number

def Offset.lexemes (o : Offset) : List Lexeme := [o.sign.symbol.lexeme o.signSpan, o.number.lexeme]

/-- The offset with its sign. -/
def Offset.value (o : Offset) : Double :=
  match o.sign with
  | .plus => o.number.value
  | .minus => o.number.value.neg

/-- `index = ident [('+' | '-') number]`. -/
structure Index where
  dim : Ident
  offset : Option Offset

namespace Index

def lexemes (i : Index) : List Lexeme := i.dim.lexeme :: (i.offset.map Offset.lexemes).getD []

def tree (i : Index) : Source.Index :=
  match i.offset with
  | none => ⟨i.dim, .zero, i.dim.span⟩
  | some o => ⟨i.dim, o.value, ⟨i.dim.span.start, o.number.span.stop⟩⟩

end Index

/-- `point = ident '(' [index (',' index)*] ')'`. -/
structure Point where
  grid : Ident
  openSpan : Span
  indices : Option (Separated Index)
  closeSpan : Span

namespace Point

def lexemes (p : Point) : List Lexeme :=
  p.grid.lexeme :: Symbol.openParen.lexeme p.openSpan ::
    (listLexemes Index.lexemes p.indices ++ [Symbol.closeParen.lexeme p.closeSpan])

def tree (p : Point) : Source.Point :=
  ⟨p.grid, (listItems p.indices).map Index.tree, ⟨p.grid.span.start, p.closeSpan.stop⟩⟩

end Point

/-! ## Expressions -/

/-- The nonterminals of expressions. -/
inductive Part where
  | expr | terms | product | factors | unary | atom

/-- The derivations of the nonterminals of expressions. -/
inductive Phrase : Part → Type where
  /-- `expr = product terms`. -/
  | expr (first : Phrase .product) (rest : Phrase .terms) : Phrase .expr
  /-- `terms =`. -/
  | noTerms : Phrase .terms
  /-- `terms = ('+' | '-') product terms`. -/
  | term (sign : Sign) (span : Span) (operand : Phrase .product) (rest : Phrase .terms) :
      Phrase .terms
  /-- `product = unary factors`. -/
  | product (first : Phrase .unary) (rest : Phrase .factors) : Phrase .product
  /-- `factors =`. -/
  | noFactors : Phrase .factors
  /-- `factors = ('*' | '/') unary factors`. -/
  | factor (scale : Scale) (span : Span) (operand : Phrase .unary) (rest : Phrase .factors) :
      Phrase .factors
  /-- `unary = atom`. -/
  | plain (operand : Phrase .atom) : Phrase .unary
  /-- `unary = '-' unary`. -/
  | minus (span : Span) (operand : Phrase .unary) : Phrase .unary
  /-- `atom = number`. -/
  | number (n : Number) : Phrase .atom
  /-- `atom = point`. -/
  | point (p : Point) : Phrase .atom
  /-- `atom = '(' expr ')'`. -/
  | parens (openSpan : Span) (inner : Phrase .expr) (closeSpan : Span) : Phrase .atom

/-- What a phrase stands for: an expression, or what to make of a left operand. -/
@[reducible] def Part.Tree : Part → Type
  | .terms => Expr → Expr
  | .factors => Expr → Expr
  | _ => Expr

namespace Phrase

def lexemes {part : Part} : Phrase part → List Lexeme
  | expr first rest => first.lexemes ++ rest.lexemes
  | noTerms => []
  | term sign span operand rest =>
    sign.symbol.lexeme span :: (operand.lexemes ++ rest.lexemes)
  | product first rest => first.lexemes ++ rest.lexemes
  | noFactors => []
  | factor scale span operand rest =>
    scale.symbol.lexeme span :: (operand.lexemes ++ rest.lexemes)
  | plain operand => operand.lexemes
  | minus span operand => Symbol.minus.lexeme span :: operand.lexemes
  | number n => [n.lexeme]
  | point p => p.lexemes
  | parens openSpan inner closeSpan =>
    Symbol.openParen.lexeme openSpan :: (inner.lexemes ++ [Symbol.closeParen.lexeme closeSpan])

/-- **What a phrase stands for.** Parentheses leave no node. -/
def tree {part : Part} : Phrase part → part.Tree
  | expr first rest => rest.tree first.tree
  | noTerms => fun lhs => lhs
  | term sign _ operand rest => fun lhs =>
    rest.tree (.binary sign.operator lhs operand.tree ⟨lhs.span.start, operand.tree.span.stop⟩)
  | product first rest => rest.tree first.tree
  | noFactors => fun lhs => lhs
  | factor scale _ operand rest => fun lhs =>
    rest.tree (.binary scale.operator lhs operand.tree ⟨lhs.span.start, operand.tree.span.stop⟩)
  | plain operand => operand.tree
  | minus span operand => .neg operand.tree ⟨span.start, operand.tree.span.stop⟩
  | number n => .number n.value n.span
  | point p => .point p.tree
  | parens _ inner _ => inner.tree

end Phrase

/-! ## Statements -/

/-- `clause = …`, each production with the spans of its terminals. -/
inductive Clause where
  /-- `'solution' ident`. -/
  | solution (keywordSpan : Span) (name : Ident)
  /-- `'set' ident '=' number`. -/
  | set (keywordSpan : Span) (name : Ident) (equalsSpan : Span) (value : Number)
  /-- `'step' ident`. -/
  | step (keywordSpan : Span) (name : Ident)
  /-- `'domain' ident (',' ident)*`. -/
  | domain (keywordSpan : Span) (names : Separated Ident)
  /-- `'grid' ident '(' [ident (',' ident)*] ')'`. -/
  | grid (keywordSpan : Span) (name : Ident) (openSpan : Span) (dims : Option (Separated Ident))
      (closeSpan : Span)
  /-- `point '=' expr`. -/
  | equation (lhs : Point) (equalsSpan : Span) (rhs : Phrase .expr)

namespace Clause

def lexemes : Clause → List Lexeme
  | solution span name => [Keyword.solution.lexeme span, name.lexeme]
  | set span name equalsSpan value =>
    [Keyword.set.lexeme span, name.lexeme, Symbol.equals.lexeme equalsSpan, value.lexeme]
  | step span name => [Keyword.step.lexeme span, name.lexeme]
  | domain span names => Keyword.domain.lexeme span :: names.lexemes fun n => [n.lexeme]
  | grid span name openSpan dims closeSpan =>
    Keyword.grid.lexeme span :: name.lexeme :: Symbol.openParen.lexeme openSpan ::
      (listLexemes (fun n => [n.lexeme]) dims ++ [Symbol.closeParen.lexeme closeSpan])
  | equation lhs equalsSpan rhs =>
    lhs.lexemes ++ Symbol.equals.lexeme equalsSpan :: rhs.lexemes

def tree : Clause → Source.Clause
  | solution _ name => .solution name
  | set _ name _ value => .set name value.value value.span
  | step _ name => .step name
  | domain _ names => .domain names.items
  | grid _ name _ dims _ => .grid name (listItems dims)
  | equation lhs _ rhs => .equation lhs.tree rhs.tree

/-- Where a clause starts. -/
def start : Clause → Nat
  | solution span _ | set span _ _ _ | step span _ | domain span _ | grid span _ _ _ _ => span.start
  | equation lhs _ _ => lhs.grid.span.start

end Clause

/-- `statement = clause ';'`. -/
structure Statement where
  clause : Clause
  semicolonSpan : Span

namespace Statement

def lexemes (s : Statement) : List Lexeme :=
  s.clause.lexemes ++ [Symbol.semicolon.lexeme s.semicolonSpan]

def tree (s : Statement) : Source.Statement :=
  ⟨s.clause.tree, ⟨s.clause.start, s.semicolonSpan.stop⟩⟩

end Statement

/-- `program = statement*`. -/
structure Program where
  statements : List Statement

namespace Program

def lexemes (p : Program) : List Lexeme := p.statements.flatMap Statement.lexemes

/-- The program of a text of the given length, from its first statement to its last one. -/
def tree (p : Program) (length : Nat) : Source.Program :=
  ⟨p.statements.map Statement.tree,
    match p.statements.head?, p.statements.getLast? with
    | some first, some last => ⟨first.tree.span.start, last.tree.span.stop⟩
    | _, _ => ⟨length, length⟩⟩

end Program

/-! ## What cannot extend a derivation -/

/-- None of the symbols comes first. -/
def Stops (ss : List Symbol) (rest : List Lexeme) : Prop :=
  ∀ s ∈ ss, ∀ span xs, rest ≠ s.lexeme span :: xs

/-- What cannot start with any of some symbols cannot start with any of fewer. -/
theorem Stops.mono {ss ss' : List Symbol} {rest : List Lexeme} (h : Stops ss rest)
    (hsub : ss' ⊆ ss) : Stops ss' rest :=
  fun s hs => h s (hsub hs)

theorem stops_none (rest : List Lexeme) : Stops [] rest := fun _ hs => absurd hs List.not_mem_nil

/-- Another symbol stops what the symbols extend. -/
theorem stops_symbol {ss : List Symbol} {s : Symbol} (h : s ∉ ss) (span : Span)
    (xs : List Lexeme) : Stops ss (s.lexeme span :: xs) := by
  intro s' hs' span' xs' heq
  injection heq with hhead _
  exact h ((Symbol.lexeme_inj.mp hhead).1 ▸ hs')

/-- Derivations that `f` spells out are told apart by their tokens, if none of the symbols
    follows. -/
def Determined {α : Type} (f : α → List Lexeme) (ss : List Symbol) : Prop :=
  ∀ {a a' : α} {r r' : List Lexeme}, f a ++ r = f a' ++ r' → Stops ss r → Stops ss r' →
    a = a' ∧ r = r'

theorem determined_ident : Determined (fun n : Ident => [n.lexeme]) [] := by
  intro n n' r r' h _ _
  injection h with hhead htail
  exact ⟨Ident.lexeme_inj.mp hhead, htail⟩

/-! ## Lists are determined -/

section Lists

variable {α : Type} {f : α → List Lexeme} {ss : List Symbol}

/-- What follows an item of a list stops the item: a comma, or what follows the list. -/
theorem stops_restLexemes (hcomma : .comma ∉ ss) {rest : List (Span × α)} {r : List Lexeme}
    (hr : Stops (.comma :: ss) r) : Stops ss (Separated.restLexemes f rest ++ r) := by
  cases rest with
  | nil => exact hr.mono (List.subset_cons_self _ _)
  | cons item rest => exact stops_symbol hcomma _ _

/-- The rest of a list is determined where no comma follows: a comma means another item, anything
    else its end. -/
theorem determined_restLexemes (hf : Determined f ss) (hcomma : .comma ∉ ss) :
    Determined (Separated.restLexemes f) (.comma :: ss) := by
  intro rest
  induction rest with
  | nil =>
    intro rest' r r' h hr _
    cases rest' with
    | nil => exact ⟨rfl, h⟩
    | cons item rest' => exact absurd h (hr .comma List.mem_cons_self _ _)
  | cons item rest ih =>
    intro rest' r r' h hr hr'
    obtain ⟨comma, a⟩ := item
    cases rest' with
    | nil => exact absurd h.symm (hr' .comma List.mem_cons_self _ _)
    | cons item' rest' =>
      obtain ⟨comma', a'⟩ := item'
      simp only [Separated.restLexemes, List.flatMap_cons, List.cons_append, List.append_assoc,
        List.cons.injEq, Symbol.lexeme_inj, true_and] at h
      obtain ⟨rfl, h⟩ := h
      -- an item ends at the next comma or where the list ends; neither extends it
      obtain ⟨rfl, htail⟩ := hf h (stops_restLexemes hcomma hr) (stops_restLexemes hcomma hr')
      obtain ⟨rfl, hend⟩ := ih htail hr hr'
      exact ⟨rfl, hend⟩

/-- A list is determined if its items are and no comma follows. -/
theorem determined_separated (hf : Determined f ss) (hcomma : .comma ∉ ss) :
    Determined (Separated.lexemes f) (.comma :: ss) := by
  rintro ⟨a, rest⟩ ⟨a', rest'⟩ r r' h hr hr'
  simp only [Separated.lexemes, List.append_assoc] at h
  obtain ⟨rfl, htail⟩ := hf h (stops_restLexemes hcomma hr) (stops_restLexemes hcomma hr')
  obtain ⟨rfl, hend⟩ := determined_restLexemes hf hcomma htail hr hr'
  exact ⟨rfl, hend⟩

/-- A list in parentheses is determined whatever follows, since its end is marked. -/
theorem determined_list (hf : Determined f ss) (hcomma : .comma ∉ ss) (hclose : .closeParen ∉ ss)
    (hhead : ∀ a r span xs, f a ++ r ≠ Symbol.closeParen.lexeme span :: xs)
    {o o' : Option (Separated α)} {span span' : Span} {r r' : List Lexeme}
    (h : listLexemes f o ++ Symbol.closeParen.lexeme span :: r
      = listLexemes f o' ++ Symbol.closeParen.lexeme span' :: r') :
    o = o' ∧ span = span' ∧ r = r' := by
  have hstops : ∀ span r, Stops (.comma :: ss) (Symbol.closeParen.lexeme span :: r) := by
    intro span r
    refine stops_symbol ?_ span r
    simp [hclose]
  cases o with
  | none =>
    cases o' with
    | none =>
      simp only [listLexemes, List.nil_append, List.cons.injEq, Symbol.lexeme_inj, true_and] at h
      exact ⟨rfl, h⟩
    | some s' =>
      simp only [listLexemes, Separated.lexemes, List.append_assoc] at h
      -- one list is empty: its parenthesis stands where the other one's first item starts
      exact absurd h.symm (hhead _ _ _ _)
  | some s =>
    cases o' with
    | none =>
      simp only [listLexemes, Separated.lexemes, List.append_assoc] at h
      exact absurd h (hhead _ _ _ _)
    | some s' =>
      obtain ⟨rfl, htail⟩ := determined_separated hf hcomma h (hstops span r) (hstops span' r')
      simp only [List.cons.injEq, Symbol.lexeme_inj, true_and] at htail
      exact ⟨rfl, htail⟩

end Lists

/-! ## Points are determined -/

theorem Sign.symbol_inj {a b : Sign} (h : a.symbol = b.symbol) : a = b := by
  cases a <;> cases b <;> simp_all [Sign.symbol]

theorem Sign.symbol_mem (a : Sign) : a.symbol ∈ [Symbol.plus, Symbol.minus] := by
  cases a <;> simp [Sign.symbol]

theorem Scale.symbol_inj {a b : Scale} (h : a.symbol = b.symbol) : a = b := by
  cases a <;> cases b <;> simp_all [Scale.symbol]

theorem Scale.symbol_mem (a : Scale) : a.symbol ∈ [Symbol.star, Symbol.slash] := by
  cases a <;> simp [Scale.symbol]

/-- An index is determined where no sign follows, which would start an offset. -/
theorem determined_index : Determined Index.lexemes [.plus, .minus] := by
  rintro ⟨dim, offset⟩ ⟨dim', offset'⟩ r r' h hr hr'
  simp only [Index.lexemes, List.cons_append, List.cons.injEq, Ident.lexeme_inj] at h
  obtain ⟨rfl, h⟩ := h
  cases offset with
  | none =>
    cases offset' with
    | none => exact ⟨rfl, h⟩
    | some o' => exact absurd h (hr o'.sign.symbol o'.sign.symbol_mem _ _)
  | some o =>
    cases offset' with
    | none => exact absurd h.symm (hr' o.sign.symbol o.sign.symbol_mem _ _)
    | some o' =>
      obtain ⟨sign, signSpan, number⟩ := o
      obtain ⟨sign', signSpan', number'⟩ := o'
      simp only [Option.map_some, Option.getD_some, Offset.lexemes, List.cons_append,
        List.nil_append, List.cons.injEq, Symbol.lexeme_inj, Number.lexeme_inj] at h
      obtain ⟨⟨hsign, rfl⟩, rfl, h⟩ := h
      rw [Sign.symbol_inj hsign]
      exact ⟨rfl, h⟩

/-- A point is determined whatever follows, since its list is in parentheses. -/
theorem determined_point : Determined Point.lexemes [] := by
  rintro ⟨grid, openSpan, indices, closeSpan⟩ ⟨grid', openSpan', indices', closeSpan'⟩ r r' h _ _
  simp only [Point.lexemes, List.cons_append, List.append_assoc, List.nil_append, List.cons.injEq,
    Ident.lexeme_inj, Symbol.lexeme_inj, true_and] at h
  obtain ⟨rfl, rfl, h⟩ := h
  obtain ⟨rfl, rfl, htail⟩ := determined_list determined_index (by decide) (by decide)
    (fun i r span xs => by simp [Index.lexemes]) h
  exact ⟨rfl, htail⟩

/-! ## Expressions are determined -/

/-- The symbols that extend a phrase. -/
def Part.extending : Part → List Symbol
  | .expr | .terms => [.plus, .minus, .star, .slash]
  | .product | .factors => [.star, .slash]
  | .unary | .atom => []

/-- After a product come the terms of its sum, or what follows the sum; neither starts with an
    operator of products. -/
theorem stops_terms (rest : Phrase .terms) {r : List Lexeme}
    (hr : Stops [.plus, .minus, .star, .slash] r) : Stops [.star, .slash] (rest.lexemes ++ r) := by
  cases rest with
  | noTerms => exact hr.mono (by simp)
  | term sign span operand rest =>
    refine stops_symbol ?_ _ _
    cases sign <;> decide

/-- An operand without a sign does not start with one. -/
theorem lexemes_atom_ne_minus (a : Phrase .atom) (r : List Lexeme) (span : Span)
    (xs : List Lexeme) : a.lexemes ++ r ≠ Symbol.minus.lexeme span :: xs := by
  cases a with
  | number n => simp [Phrase.lexemes]
  | point p => simp [Phrase.lexemes, Point.lexemes]
  | parens openSpan inner closeSpan => simp [Phrase.lexemes]

/-- **The phrases of expressions are determined**, each part as far as no symbol extends it: by
    induction on the phrase, one production at a time. -/
theorem determined_phrase {part : Part} (d : Phrase part) :
    ∀ {d' : Phrase part} {r r' : List Lexeme}, d.lexemes ++ r = d'.lexemes ++ r' →
      Stops part.extending r → Stops part.extending r' → d = d' ∧ r = r' := by
  induction d with
  | expr first rest ihf ihr =>
    intro d' r r' h hr hr'
    cases d' with
    | expr first' rest' =>
      simp only [Phrase.lexemes, List.append_assoc] at h
      obtain ⟨rfl, htail⟩ := ihf h (stops_terms rest hr) (stops_terms rest' hr')
      obtain ⟨rfl, hend⟩ := ihr htail hr hr'
      exact ⟨rfl, hend⟩
  | noTerms =>
    intro d' r r' h hr hr'
    cases d' with
    | noTerms => exact ⟨rfl, h⟩
    | term sign span operand rest =>
      exact absurd h (hr.mono (by simp [Part.extending]) _ sign.symbol_mem _ _)
  | term sign span operand rest iho ihr =>
    intro d' r r' h hr hr'
    cases d' with
    | noTerms => exact absurd h.symm (hr'.mono (by simp [Part.extending]) _ sign.symbol_mem _ _)
    | term sign' span' operand' rest' =>
      simp only [Phrase.lexemes, List.cons_append, List.append_assoc, List.cons.injEq,
        Symbol.lexeme_inj] at h
      obtain ⟨⟨hsign, rfl⟩, h⟩ := h
      obtain ⟨rfl, htail⟩ := iho h (stops_terms rest hr) (stops_terms rest' hr')
      obtain ⟨rfl, hend⟩ := ihr htail hr hr'
      rw [Sign.symbol_inj hsign]
      exact ⟨rfl, hend⟩
  | product first rest ihf ihr =>
    intro d' r r' h hr hr'
    cases d' with
    | product first' rest' =>
      simp only [Phrase.lexemes, List.append_assoc] at h
      obtain ⟨rfl, htail⟩ := ihf h (stops_none _) (stops_none _)
      obtain ⟨rfl, hend⟩ := ihr htail hr hr'
      exact ⟨rfl, hend⟩
  | noFactors =>
    intro d' r r' h hr hr'
    cases d' with
    | noFactors => exact ⟨rfl, h⟩
    | factor scale span operand rest => exact absurd h (hr _ scale.symbol_mem _ _)
  | factor scale span operand rest iho ihr =>
    intro d' r r' h hr hr'
    cases d' with
    | noFactors => exact absurd h.symm (hr' _ scale.symbol_mem _ _)
    | factor scale' span' operand' rest' =>
      simp only [Phrase.lexemes, List.cons_append, List.append_assoc, List.cons.injEq,
        Symbol.lexeme_inj] at h
      obtain ⟨⟨hscale, rfl⟩, h⟩ := h
      obtain ⟨rfl, htail⟩ := iho h (stops_none _) (stops_none _)
      obtain ⟨rfl, hend⟩ := ihr htail hr hr'
      rw [Scale.symbol_inj hscale]
      exact ⟨rfl, hend⟩
  | plain operand ih =>
    intro d' r r' h hr hr'
    cases d' with
    | plain operand' =>
      obtain ⟨rfl, htail⟩ := ih h hr hr'
      exact ⟨rfl, htail⟩
    | minus span' operand' => exact absurd h (lexemes_atom_ne_minus operand _ _ _)
  | minus span operand ih =>
    intro d' r r' h hr hr'
    cases d' with
    | plain operand' => exact absurd h.symm (lexemes_atom_ne_minus operand' _ _ _)
    | minus span' operand' =>
      simp only [Phrase.lexemes, List.cons_append, List.cons.injEq, Symbol.lexeme_inj,
        true_and] at h
      obtain ⟨rfl, h⟩ := h
      obtain ⟨rfl, htail⟩ := ih h hr hr'
      exact ⟨rfl, htail⟩
  | number n =>
    intro d' r r' h _ _
    cases d' with
    | number n' => simpa [Phrase.lexemes] using h
    | point p' => exact absurd h (by simp [Phrase.lexemes, Point.lexemes])
    | parens openSpan' inner' closeSpan' => exact absurd h (by simp [Phrase.lexemes])
  | point p =>
    intro d' r r' h hr hr'
    cases d' with
    | number n' => exact absurd h (by simp [Phrase.lexemes, Point.lexemes])
    | point p' =>
      obtain ⟨rfl, htail⟩ := determined_point h hr hr'
      exact ⟨rfl, htail⟩
    | parens openSpan' inner' closeSpan' =>
      exact absurd h (by simp [Phrase.lexemes, Point.lexemes])
  | parens openSpan inner closeSpan ih =>
    intro d' r r' h _ _
    cases d' with
    | number n' => exact absurd h (by simp [Phrase.lexemes])
    | point p' => exact absurd h (by simp [Phrase.lexemes, Point.lexemes])
    | parens openSpan' inner' closeSpan' =>
      simp only [Phrase.lexemes, List.cons_append, List.append_assoc, List.nil_append,
        List.cons.injEq, Symbol.lexeme_inj, true_and] at h
      obtain ⟨rfl, h⟩ := h
      -- the parenthesis stops the expression, whatever follows it
      obtain ⟨rfl, htail⟩ := ih h (stops_symbol (by decide) _ _) (stops_symbol (by decide) _ _)
      simp only [List.cons.injEq, Symbol.lexeme_inj, true_and] at htail
      obtain ⟨rfl, htail⟩ := htail
      exact ⟨rfl, htail⟩

/-! ## Programs are determined -/

/-- Statements with the same tokens have the same clause and the same end: the first token tells the
    kind of the clause. -/
theorem determined_clause {c c' : Clause} {span span' : Span} {r r' : List Lexeme}
    (h : c.lexemes ++ Symbol.semicolon.lexeme span :: r
      = c'.lexemes ++ Symbol.semicolon.lexeme span' :: r') : c = c' ∧ span = span' ∧ r = r' := by
  cases c with
  | solution a name =>
    cases c' with
    | solution a' name' => simpa [Clause.lexemes, and_assoc] using h
    | equation lhs' a' rhs' => exact absurd h (by simp [Clause.lexemes, Point.lexemes])
    | _ => exact absurd h (by simp [Clause.lexemes])
  | set a name b value =>
    cases c' with
    | set a' name' b' value' => simpa [Clause.lexemes, and_assoc] using h
    | equation lhs' a' rhs' => exact absurd h (by simp [Clause.lexemes, Point.lexemes])
    | _ => exact absurd h (by simp [Clause.lexemes])
  | step a name =>
    cases c' with
    | step a' name' => simpa [Clause.lexemes, and_assoc] using h
    | equation lhs' a' rhs' => exact absurd h (by simp [Clause.lexemes, Point.lexemes])
    | _ => exact absurd h (by simp [Clause.lexemes])
  | domain a names =>
    cases c' with
    | domain a' names' =>
      simp only [Clause.lexemes, List.cons_append, List.cons.injEq, Keyword.lexeme_inj,
        true_and] at h
      obtain ⟨rfl, h⟩ := h
      obtain ⟨rfl, htail⟩ := determined_separated determined_ident (by decide) h
        (stops_symbol (by decide) _ _) (stops_symbol (by decide) _ _)
      simpa using htail
    | equation lhs' a' rhs' => exact absurd h (by simp [Clause.lexemes, Point.lexemes])
    | _ => exact absurd h (by simp [Clause.lexemes])
  | grid a name openSpan dims closeSpan =>
    cases c' with
    | grid a' name' openSpan' dims' closeSpan' =>
      simp only [Clause.lexemes, List.cons_append, List.append_assoc, List.nil_append,
        List.cons.injEq, Keyword.lexeme_inj, Ident.lexeme_inj, Symbol.lexeme_inj, true_and] at h
      obtain ⟨rfl, rfl, rfl, h⟩ := h
      obtain ⟨rfl, rfl, htail⟩ := determined_list determined_ident (by decide) (by decide)
        (fun n r span xs => by simp) h
      simpa using htail
    | equation lhs' a' rhs' => exact absurd h (by simp [Clause.lexemes, Point.lexemes])
    | _ => exact absurd h (by simp [Clause.lexemes])
  | equation lhs a rhs =>
    cases c' with
    | equation lhs' a' rhs' =>
      simp only [Clause.lexemes, List.append_assoc, List.cons_append] at h
      obtain ⟨rfl, htail⟩ := determined_point h (stops_none _) (stops_none _)
      simp only [List.cons.injEq, Symbol.lexeme_inj, true_and] at htail
      obtain ⟨rfl, htail⟩ := htail
      obtain ⟨rfl, hend⟩ := determined_phrase rhs htail (stops_symbol (by decide) _ _)
        (stops_symbol (by decide) _ _)
      simpa using hend
    | _ => exact absurd h (by simp [Clause.lexemes, Point.lexemes])

/-- A statement has a first token, and starts where this one does. -/
theorem Statement.lexemes_eq_cons (s : Statement) :
    ∃ x xs, s.lexemes = x :: xs ∧ x.span.start = s.tree.span.start := by
  obtain ⟨clause, span⟩ := s
  cases clause <;> exact ⟨_, _, rfl, rfl⟩

/-- **The grammar is unambiguous**: tokens have one derivation at most. -/
theorem Program.lexemes_injective : Function.Injective Program.lexemes := by
  rintro ⟨ss⟩
  induction ss with
  | nil =>
    rintro ⟨ss'⟩ h
    cases ss' with
    | nil => rfl
    | cons s' ss' =>
      obtain ⟨x, xs, hs', _⟩ := s'.lexemes_eq_cons
      exact absurd h (by simp [Program.lexemes, hs'])
  | cons s ss ih =>
    rintro ⟨ss'⟩ h
    cases ss' with
    | nil =>
      obtain ⟨x, xs, hs, _⟩ := s.lexemes_eq_cons
      exact absurd h (by simp [Program.lexemes, hs])
    | cons s' ss' =>
      obtain ⟨clause, span⟩ := s
      obtain ⟨clause', span'⟩ := s'
      simp only [Program.lexemes, Statement.lexemes, List.flatMap_cons, List.append_assoc,
        List.cons_append, List.nil_append] at h
      -- the semicolon marks where the first statement ends, so that the rest is compared by itself
      obtain ⟨rfl, rfl, htail⟩ := determined_clause h
      have hss : Program.mk ss = ⟨ss'⟩ := ih htail
      injection hss with hss
      rw [hss]

end Grammar

end Stencil.Source
