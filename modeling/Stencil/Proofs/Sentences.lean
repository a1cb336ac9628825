import Mathlib
import Stencil.Proofs.Parsing
import Stencil.Proofs.Tracking
import Stencil.Proofs.Writing
import Stencil.Source.FrontEnd

/-!
# Sentences

A sentence is a statement of the source language by what it says: a name, a width, dimensions, a
grid or an equation. The text of sentences is parsed to a program that says them, statement by
statement (`written_sentences`, `Written.parseText`), and such a program declares what the sentences
declare (`Say.agrees`).

Sentences stand between solutions and texts. They have the data of the model and no places, so that
a solution can be taken apart into them; and each of them has a text of a fixed form, a line that
ends in a semicolon. What the text is parsed to is only known up to places, which is why a program
*says* sentences and is not equal to anything that is made from them.
-/

namespace Stencil.Source

/-! ## Sentences -/

/-- A statement of the source language, by what it says. -/
inductive Sentence where
  | solution (name : String)
  | width (w : Width)
  | step (name : String)
  | domain (first : String) (others : List String)
  | grid (g : Grid)
  | equation (e : Equation)

namespace Sentence

/-- The sentence as it is written, without the semicolon. -/
def text : Sentence → String
  | solution name => "solution " ++ name
  | width w => "set element_bytes = " ++ toString w.bytes
  | step name => "step " ++ name
  | domain first others => "domain " ++ Text.join ", " (first :: others)
  | grid g => "grid " ++ g.text
  | equation e => e.lhs.text ++ " = " ++ e.rhs.text

/-- The clause says the sentence, where the grids are known. -/
inductive SaidBy (grids : List Grid) : Clause → Sentence → Prop where
  | solution (id : Ident) : SaidBy grids (.solution id) (solution id.name)
  | width {name : Ident} {value : Double} {w : Width} (span : Span)
      (hname : name.name = "element_bytes") (hvalue : value.IsInt w.bytes) :
      SaidBy grids (.set name value span) (width w)
  | step (id : Ident) : SaidBy grids (.step id) (step id.name)
  | domain {ids : List Ident} {first : String} {others : List String}
      (hnames : ids.map Ident.name = first :: others) :
      SaidBy grids (.domain ids) (domain first others)
  | grid {name : Ident} {ids : List Ident} {g : Grid} (hname : g.name = name.name)
      (hdims : g.dimNames = ids.map Ident.name) : SaidBy grids (.grid name ids) (grid g)
  | equation {lhs : Point} {rhs : Expr} {e : Equation} (hlhs : lhs.Means grids e.lhs)
      (hrhs : rhs.Means grids e.rhs) : SaidBy grids (.equation lhs rhs) (equation e)

/-- What the sentence refers to can stand in a source text. -/
def Writable (grids : List Grid) : Sentence → Prop
  | solution name => Nameable name
  | width _ => True
  | step name => Nameable name
  | domain first others => ∀ name ∈ first :: others, Nameable name
  | grid g => GridNameable g
  | equation e => PointWritable grids e.lhs ∧ ExprWritable grids e.rhs

/-! What a sentence declares. -/

def names : Sentence → List String
  | solution name => [name]
  | _ => []

def dims : Sentence → List Dim
  | step name => [⟨name, .step⟩]
  | domain first others => (first :: others).map fun name => ⟨name, .domain⟩
  | _ => []

def widths : Sentence → List Width
  | width w => [w]
  | _ => []

def grids : Sentence → List Grid
  | grid g => [g]
  | _ => []

def equations : Sentence → List Equation
  | equation e => [e]
  | _ => []

end Sentence

variable {grids : List Grid}

theorem map_name_eq {ids : List Ident} {names : List String}
    (h : List.Forall₂ (fun id name => id.name = name) ids names) : ids.map Ident.name = names := by
  rw [← List.forall₂_eq_eq_eq]
  exact List.forall₂_map_left_iff.mpr h

/-- The width that is written is a number of bytes. -/
theorem isInt_bytes (w : Width) : ((⟨w.bytes, 0⟩ : Decimal).toDouble false).IsInt w.bytes := by
  rw [← Double.toInt?_eq_some_iff]
  cases w <;> decide +kernel

/-- A reserved word and a blank before a text. -/
theorem Written.after_keyword {α : Type} {follows : List Char → Prop} {text word : String}
    {lexemes : α → List Lexeme} {P : α → Prop} (h : Written follows text.toList lexemes P)
    (k : Keyword) (hword : word.toList = k.text.toList ++ [' ']) :
    Written follows (word ++ text).toList (fun d : Span × α => k.lexeme d.1 :: lexemes d.2)
      (fun d => P d.2) := by
  rw [String.toList_append, hword, List.append_assoc]
  refine ((written_keyword k).append h.blank fun rest _ => breaks_blank _).map ?_
  exact fun d hd => ⟨d, rfl, hd.2⟩

theorem nameable_elementBytes : Nameable "element_bytes" := by
  refine ⟨(isIdentifier_iff _).mp (by decide), fun k => ?_⟩
  cases k <;> decide

/-- **A sentence is written for a clause that says it.** -/
theorem written_clause (x : Sentence) (hx : x.Writable grids) :
    Written Breaks x.text.toList Grammar.Clause.lexemes (fun c => x.SaidBy grids c.tree) := by
  cases x with
  | solution name =>
    refine ((written_name hx).after_keyword .solution rfl).map ?_
    rintro ⟨span, id⟩ rfl
    exact ⟨.solution span id, rfl, .solution id⟩
  | width w =>
    have htext : (Sentence.width w).text.toList
        = ("set " ++ ("element_bytes = " ++ toString w.bytes)).toList := by
      rw [← String.append_assoc]
      rfl
    have hsetting : ("element_bytes = " ++ toString w.bytes).toList = "element_bytes".toList
        ++ ' ' :: ([Symbol.equals.char] ++ ' ' :: Nat.toDigits 10 w.bytes) := by
      cases w <;> decide
    have hvalue := (written_symbol .equals).append (written_nat w.bytes).blank
      fun _ _ => trivial
    have hset := (written_name nameable_elementBytes).append hvalue.blank
      fun rest _ => breaks_blank _
    rw [← hsetting] at hset
    rw [htext]
    refine (hset.after_keyword .set rfl).map ?_
    rintro ⟨span, id, equalsSpan, m⟩ ⟨hid, _, hm⟩
    refine ⟨.set span id equalsSpan m, rfl, .width _ hid ?_⟩
    rw [hm]
    exact isInt_bytes w
  | step name =>
    refine ((written_name hx).after_keyword .step rfl).map ?_
    rintro ⟨span, id⟩ rfl
    exact ⟨.step span id, rfl, .step id⟩
  | domain first others =>
    have hnames := written_separated id (fun (d : Ident) name => d.name = name) others first
      fun name hname => written_name (hx name hname)
    rw [List.map_id] at hnames
    refine (hnames.after_keyword .domain rfl).map ?_
    rintro ⟨span, names⟩ hitems
    exact ⟨.domain span names, rfl, .domain (map_name_eq hitems)⟩
  | grid g =>
    have hdims := written_list id (fun (d : Ident) name => d.name = name) g.dimNames
      (List.forall_mem_map.mpr fun d hd => written_name (hx.2 d hd))
    rw [List.map_id] at hdims
    have hgrid := (written_name hx.1).append hdims fun rest _ => breaks_symbol .openParen _
    have htext : g.name.toList ++ '(' :: ((Text.join ", " g.dimNames).toList ++ [')'])
        = g.text.toList := by
      simp [Grid.text]
    rw [htext] at hgrid
    refine ((hgrid.after_keyword .grid rfl).mono fun _ _ => trivial).map ?_
    rintro ⟨span, name, openSpan, dims, closeSpan⟩ ⟨hname, hitems⟩
    exact ⟨.grid span name openSpan dims closeSpan, rfl,
      .grid hname.symm (map_name_eq hitems).symm⟩
  | equation e =>
    have htext : (Sentence.equation e).text.toList
        = e.lhs.text.toList ++ ' ' :: ([Symbol.equals.char] ++ ' ' :: e.rhs.text.toList) := by
      show (e.lhs.text ++ " = " ++ e.rhs.text).toList = _
      simp [Symbol.char]
    have hrhs := (written_symbol .equals).append (written_expr e.rhs hx.2).blank
      fun _ _ => trivial
    rw [htext]
    refine ((written_point hx.1).append hrhs.blank fun _ _ => trivial).map ?_
    rintro ⟨lhs, equalsSpan, u⟩ ⟨hlhs, _, hu⟩
    refine ⟨.equation lhs equalsSpan (.expr (.product u .noFactors) .noTerms), ?_,
      .equation hlhs hu⟩
    simp [Grammar.Clause.lexemes, Grammar.Phrase.lexemes]

/-- The text of sentences, each with a semicolon and a gap after it. -/
def sentencesText (gap : String) (xs : List Sentence) : String :=
  String.join (xs.map fun x => x.text ++ ";" ++ gap)

/-- The statements say the sentences, one each. -/
def Say (grids : List Grid) : List Statement → List Sentence → Prop :=
  List.Forall₂ fun stmt x => x.SaidBy grids stmt.clause

/-- **Sentences are written for a program that says them.** -/
theorem written_sentences {gap : String} (hgap : ∀ c ∈ gap.toList, isBlank c = true)
    (xs : List Sentence) : (∀ x ∈ xs, x.Writable grids) →
    Written Anything (sentencesText gap xs).toList Grammar.Program.lexemes
      (fun p => Say grids (p.statements.map Grammar.Statement.tree) xs) := by
  induction xs with
  | nil => exact fun _ => (written_blanks (List.forall_mem_nil _)).map fun _ _ => ⟨⟨[]⟩, rfl, .nil⟩
  | cons x xs ih =>
    intro hx
    obtain ⟨hfirst, hrest⟩ := List.forall_mem_cons.mp hx
    have htext : (sentencesText gap (x :: xs)).toList = x.text.toList
        ++ ([Symbol.semicolon.char] ++ (gap.toList ++ (sentencesText gap xs).toList)) := by
      simp [sentencesText, Symbol.char]
    have hafter := (written_symbol .semicolon).append
      ((written_blanks hgap).append (ih hrest) fun _ _ => trivial) fun _ _ => trivial
    rw [htext]
    refine ((written_clause x hfirst).append hafter fun rest _ => breaks_symbol .semicolon _).map ?_
    rintro ⟨c, span, _, p⟩ ⟨hc, _, _, hp⟩
    refine ⟨⟨⟨c, span⟩ :: p.statements⟩, ?_, .cons hc hp⟩
    simp [Grammar.Program.lexemes, Grammar.Statement.lexemes]

/-- **A text that is written for a program is parsed to it.** -/
theorem Written.parseText {source : String} {P : Grammar.Program → Prop}
    (h : Written Anything source.toList Grammar.Program.lexemes P) :
    ∃ d, parseText source = ⟨some (d.tree source.utf8ByteSize), []⟩ ∧ P d := by
  obtain ⟨ts, hscan, hderive⟩ := h
  have houtline : outline source.toList = ts.map some := by
    have hall := hscan [] trivial
    rwa [List.append_nil, outline_nil, List.append_nil] at hall
  obtain ⟨hlexemes, hstrays⟩ := scan_of_outline houtline
  obtain ⟨d, hd, hP⟩ := hderive _ hlexemes
  refine ⟨d, ?_, hP⟩
  unfold Source.parseText
  simp only [← hd, parse_lexemes, hstrays, List.map_nil]

/-! ## What sentences declare -/

/-- A grid statement gives the name and the dimensions of the grid. -/
def GridDecl.Names (g : GridDecl) (grid : Grid) : Prop :=
  grid.name = g.name ∧ grid.dimNames = g.dims

/-- What is declared is what the sentences declare. -/
structure Declared.Agrees (known : List Grid) (D : Declared) (xs : List Sentence) : Prop where
  dims : D.dims = xs.flatMap Sentence.dims
  widths : List.Forall₂ (fun v w => v.IsInt (Width.bytes w)) D.widths (xs.flatMap Sentence.widths)
  grids : List.Forall₂ GridDecl.Names D.grids (xs.flatMap Sentence.grids)
  equations : List.Forall₂ (EquationDecl.Means known) D.equations (xs.flatMap Sentence.equations)

theorem Sentence.SaidBy.agrees {c : Clause} {x : Sentence} (h : x.SaidBy grids c) :
    (Declared.ofClause c).Agrees grids [x] := by
  cases h with
  | solution id => exact ⟨rfl, .nil, .nil, .nil⟩
  | width span hname hvalue => exact ⟨rfl, .cons hvalue .nil, .nil, .nil⟩
  | step id => exact ⟨rfl, .nil, .nil, .nil⟩
  | @domain ids first others hnames =>
    refine ⟨?_, .nil, .nil, .nil⟩
    have hdims : (Declared.ofClause (.domain ids)).dims
        = (ids.map Ident.name).map fun name => ⟨name, .domain⟩ := by
      rw [List.map_map]
      rfl
    rw [List.flatMap_cons, List.flatMap_nil, List.append_nil, hdims, hnames]
    rfl
  | grid hname hdims => exact ⟨rfl, .nil, .cons ⟨hname, hdims⟩ .nil, .nil⟩
  | equation hlhs hrhs => exact ⟨rfl, .nil, .nil, .cons ⟨hlhs, hrhs⟩ .nil⟩

theorem Declared.Agrees.append {D E : Declared} {xs ys : List Sentence} (h : D.Agrees grids xs)
    (h' : E.Agrees grids ys) : (D ++ E).Agrees grids (xs ++ ys) where
  dims := by rw [List.flatMap_append, ← h.dims, ← h'.dims]; rfl
  widths := by rw [List.flatMap_append]; exact List.rel_append h.widths h'.widths
  grids := by rw [List.flatMap_append]; exact List.rel_append h.grids h'.grids
  equations := by rw [List.flatMap_append]; exact List.rel_append h.equations h'.equations

/-- **Statements declare what their sentences declare**, part by part and in the same order. -/
theorem Say.agrees {stmts : List Statement} {xs : List Sentence} (h : Say grids stmts xs) :
    (Declared.ofStatements stmts).Agrees grids xs := by
  induction h with
  | nil => exact ⟨rfl, .nil, .nil, .nil⟩
  | cons hx _ ih => exact hx.agrees.append ih

theorem Say.names {p : Program} {xs : List Sentence} (h : Say grids p.statements xs) :
    p.solutionNames.map Ident.name = xs.flatMap Sentence.names := by
  unfold Program.solutionNames
  generalize p.statements = stmts at h
  induction h with
  | nil => rfl
  | @cons stmt x stmts xs hx _ ih =>
    obtain ⟨clause, span⟩ := stmt
    rw [List.flatMap_cons, ← ih]
    cases hx <;> rfl

/-- A statement among others says a sentence among the others' sentences. -/
theorem Say.split {before after : List Statement} {stmt : Statement} : ∀ {xs : List Sentence},
    Say grids (before ++ stmt :: after) xs →
      ∃ xs₁ x xs₂, xs = xs₁ ++ x :: xs₂ ∧ Say grids before xs₁ ∧ x.SaidBy grids stmt.clause := by
  induction before with
  | nil =>
    rintro _ (_ | ⟨hx, _⟩)
    exact ⟨[], _, _, rfl, .nil, hx⟩
  | cons stmt' before ih =>
    rintro _ (_ | ⟨hx', hrest⟩)
    obtain ⟨xs₁, x, xs₂, rfl, hbefore, hx⟩ := ih hrest
    exact ⟨_ :: xs₁, x, xs₂, rfl, .cons hx' hbefore, hx⟩

end Stencil.Source
