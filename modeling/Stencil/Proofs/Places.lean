import Mathlib
import Stencil.Proofs.Expectations

/-!
# Reading does not look at places

Every token, every node of a tree and every phase without its places: `unplaced` puts the empty span
at the start of the text in place of all of them. Each step of a phase is also one without places
(`Step.unplaced`), so parsing tokens without places gives what parsing them gives, without places
(`parse_unplaced`). Tokens that differ in their places alone are parsed alike.

The map is taken through every function that puts a tree together. Spans are joined there, and the
join of two empty spans at the start is the empty span at the start, so that each of these functions
commutes with the map. Nothing else is needed: which step a token takes is decided by the token and
the phase's constructor, and neither has a place in it.

Comments and blanks are the use of this. A text that is spaced differently has the same tokens at
other places, and so the same program but for its spans.
-/

namespace Stencil.Source

/-! ## Without places -/

/-- The place of what has none. -/
def Span.nowhere : Span := ⟨0, 0⟩

def Lexeme.unplaced (x : Lexeme) : Lexeme := ⟨x.token, .nowhere⟩

def Ident.unplaced (n : Ident) : Ident := ⟨n.name, .nowhere⟩

@[simp] theorem Ident.name_unplaced (n : Ident) : n.unplaced.name = n.name := rfl

def Index.unplaced (i : Index) : Index := ⟨i.dim.unplaced, i.offset, .nowhere⟩

def Point.unplaced (p : Point) : Point :=
  ⟨p.grid.unplaced, p.indices.map Index.unplaced, .nowhere⟩

def Expr.unplaced : Expr → Expr
  | number v _ => .number v .nowhere
  | point p => .point p.unplaced
  | neg operand _ => .neg operand.unplaced .nowhere
  | binary op lhs rhs _ => .binary op lhs.unplaced rhs.unplaced .nowhere

def Clause.unplaced : Clause → Clause
  | solution name => .solution name.unplaced
  | set name value _ => .set name.unplaced value .nowhere
  | step name => .step name.unplaced
  | domain names => .domain (names.map Ident.unplaced)
  | grid name dims => .grid name.unplaced (dims.map Ident.unplaced)
  | equation lhs rhs => .equation lhs.unplaced rhs.unplaced

def Statement.unplaced (s : Statement) : Statement := ⟨s.clause.unplaced, .nowhere⟩

def Program.unplaced (p : Program) : Program := ⟨p.statements.map Statement.unplaced, .nowhere⟩

def SyntaxError.unplaced (e : SyntaxError) : SyntaxError :=
  ⟨e.found.map Lexeme.unplaced, e.expected⟩

def Pending.unplaced (p : Pending) : Pending := ⟨p.lhs.unplaced, p.op⟩

def Level.unplaced (l : Level) : Level :=
  ⟨l.sum.map Pending.unplaced, l.product.map Pending.unplaced, l.signs.map fun _ => .nowhere⟩

def OpenEquation.unplaced (e : OpenEquation) : OpenEquation :=
  ⟨e.lhs.unplaced, e.level.unplaced, e.outer.map Level.unplaced⟩

def Site.unplaced : Site → Site
  | target => .target
  | operand e => .operand e.unplaced

def PointPhase.unplaced : PointPhase → PointPhase
  | named => .named
  | opened => .opened
  | index done dim => .index (done.map Index.unplaced) dim.unplaced
  | signed done dim negative => .signed (done.map Index.unplaced) dim.unplaced negative
  | indexed done => .indexed (done.map Index.unplaced)
  | separated done => .separated (done.map Index.unplaced)

def Phase.unplaced : Phase → Phase
  | idle => .idle
  | header k _ => .header k 0
  | setting _ name => .setting 0 name.unplaced
  | settingValue _ name => .settingValue 0 name.unplaced
  | domains _ names => .domains 0 (names.map Ident.unplaced)
  | domainsMore _ names => .domainsMore 0 (names.map Ident.unplaced)
  | gridNamed _ name => .gridNamed 0 name.unplaced
  | gridOpened _ name => .gridOpened 0 name.unplaced
  | gridDims _ name dims => .gridDims 0 name.unplaced (dims.map Ident.unplaced)
  | gridMore _ name dims => .gridMore 0 name.unplaced (dims.map Ident.unplaced)
  | closing _ clause => .closing 0 clause.unplaced
  | point site grid phase => .point site.unplaced grid.unplaced phase.unplaced
  | target lhs => .target lhs.unplaced
  | operand e => .operand e.unplaced
  | operator e value => .operator e.unplaced value.unplaced

def Move.unplaced : Move → Move
  | on phase => .on phase.unplaced
  | done statement => .done statement.unplaced

/-! ## What the parser builds -/

@[simp] theorem Expr.span_unplaced (e : Expr) : e.unplaced.span = .nowhere := by
  cases e <;> rfl

/-- A binary node spans its operands, and without their places it spans nothing, like any node. -/
theorem Expr.join_unplaced (op : Operator) (lhs rhs : Expr) :
    (lhs.join op rhs).unplaced = lhs.unplaced.join op rhs.unplaced := by
  simp [Expr.join, Expr.unplaced, Span.nowhere]

theorem Expr.under_unplaced (operand : Expr) (minus : Span) :
    (operand.under minus).unplaced = operand.unplaced.under .nowhere := by
  simp [Expr.under, Expr.unplaced, Span.nowhere]

theorem complete_unplaced (waiting : Option Pending) (rhs : Expr) :
    (complete waiting rhs).unplaced = complete (waiting.map Pending.unplaced) rhs.unplaced := by
  cases waiting with
  | none => rfl
  | some p => exact Expr.join_unplaced p.op p.lhs rhs

/-- Signs are put around an operand from the innermost one outwards, and each of them keeps its
    turn. -/
theorem foldl_under_unplaced (signs : List Span) : ∀ operand : Expr,
    (signs.foldl Expr.under operand).unplaced
      = (signs.map fun _ => .nowhere).foldl Expr.under operand.unplaced := by
  induction signs with
  | nil => intro operand; rfl
  | cons minus signs ih =>
    intro operand
    rw [List.foldl_cons, ih, Expr.under_unplaced]
    rfl

theorem Level.sumWith_unplaced (l : Level) (v : Expr) :
    (l.sumWith v).unplaced = l.unplaced.sumWith v.unplaced :=
  complete_unplaced l.sum v

theorem Level.productWith_unplaced (l : Level) (operand : Expr) :
    (l.productWith operand).unplaced = l.unplaced.productWith operand.unplaced := by
  rw [Level.productWith, complete_unplaced, foldl_under_unplaced]
  rfl

/-- The operand that is read goes to the level where it stands; places decide nothing about that. -/
theorem OpenEquation.withOperand_unplaced (e : OpenEquation) (operand : Expr) :
    (e.withOperand operand).unplaced = e.unplaced.withOperand operand.unplaced := by
  simp only [withOperand, Phase.unplaced, Level.productWith_unplaced]
  rfl

theorem Site.close_unplaced (site : Site) (p : Point) :
    (site.close p).unplaced = site.unplaced.close p.unplaced := by
  cases site with
  | target => rfl
  | operand e => exact e.withOperand_unplaced (.point p)

/-- A point that is closed, without its places: its span is empty, wherever the parenthesis
    stood. -/
theorem closePoint_unplaced (site : Site) (g : Ident) (is : List Index) (stop : Nat) :
    (closePoint site g is stop).unplaced
      = closePoint site.unplaced g.unplaced (is.map Index.unplaced) 0 :=
  site.close_unplaced _

theorem afterHeader_unplaced (k : Keyword) (start : Nat) (n : Ident) :
    (afterHeader k start n).unplaced = afterHeader k 0 n.unplaced := by
  cases k <;> rfl

/-! ## Steps -/

/-- What may follow does not depend on places, so that errors are the same tokens for the same
    reasons. -/
theorem Phase.expected_unplaced (phase : Phase) : phase.unplaced.expected = phase.expected := by
  cases phase with
  | point site g phase => cases phase <;> rfl
  | operator e v =>
    obtain ⟨lhs, level, outer⟩ := e
    cases outer <;> rfl
  | _ => rfl

/-- A step is a step without places, from the phase without them to what it leads to without
    them. -/
theorem Step.unplaced {phase : Phase} {x : Lexeme} {move : Move} (h : Step phase x move) :
    Step phase.unplaced x.unplaced move.unplaced := by
  cases h with
  | keyword k span => exact .keyword k .nowhere
  | grid g => exact .grid g.unplaced
  | name k start n =>
    rw [Move.unplaced, afterHeader_unplaced]
    exact .name k 0 n.unplaced
  | setEquals start n span => exact .setEquals 0 n.unplaced .nowhere
  | setValue start n v => exact .setValue 0 n.unplaced ⟨v.value, .nowhere⟩
  | domainComma start ns span => exact .domainComma 0 _ .nowhere
  | domainEnd start ns span => exact .domainEnd 0 _ .nowhere
  | domainName start ns n =>
    rw [Move.unplaced, Phase.unplaced, List.map_append]
    exact .domainName 0 _ n.unplaced
  | gridOpen start g span => exact .gridOpen 0 _ .nowhere
  | gridFirst start g d => exact .gridFirst 0 _ d.unplaced
  | gridEmpty start g span => exact .gridEmpty 0 _ .nowhere
  | gridComma start g ds span => exact .gridComma 0 _ _ .nowhere
  | gridClose start g ds span => exact .gridClose 0 _ _ .nowhere
  | gridDim start g ds d =>
    rw [Move.unplaced, Phase.unplaced, List.map_append]
    exact .gridDim 0 _ _ d.unplaced
  | semicolon start c span => exact .semicolon 0 c.unplaced .nowhere
  | pointOpen site g span => exact .pointOpen _ _ .nowhere
  | pointFirst site g d => exact .pointFirst _ _ d.unplaced
  | pointEmpty site g span =>
    rw [Move.unplaced, closePoint_unplaced]
    exact .pointEmpty _ _ .nowhere
  | indexSign site g is d sign span => exact .indexSign _ _ _ _ sign .nowhere
  | indexComma site g is d span =>
    simp only [Move.unplaced, Phase.unplaced, PointPhase.unplaced, List.map_append]
    exact .indexComma _ _ _ d.unplaced .nowhere
  | indexClose site g is d span =>
    rw [Move.unplaced, closePoint_unplaced, List.map_append]
    exact .indexClose _ _ _ d.unplaced .nowhere
  | indexOffset site g is d negative v =>
    simp only [Move.unplaced, Phase.unplaced, PointPhase.unplaced, List.map_append]
    exact .indexOffset _ _ _ d.unplaced negative ⟨v.value, .nowhere⟩
  | pointComma site g is span => exact .pointComma _ _ _ .nowhere
  | pointClose site g is span =>
    rw [Move.unplaced, closePoint_unplaced]
    exact .pointClose _ _ _ .nowhere
  | pointDim site g is d => exact .pointDim _ _ _ d.unplaced
  | equals lhs span => exact .equals _ .nowhere
  | sign e span => exact .sign e.unplaced .nowhere
  | number e v =>
    rw [Move.unplaced, OpenEquation.withOperand_unplaced]
    exact .number e.unplaced ⟨v.value, .nowhere⟩
  | point e g => exact .point e.unplaced g.unplaced
  | openParen e span => exact .openParen e.unplaced .nowhere
  | factor e v scale span => exact .factor e.unplaced v.unplaced scale .nowhere
  | term e v sign span =>
    have hterm := Step.term e.unplaced v.unplaced sign .nowhere
    rw [OpenEquation.unplaced, ← Level.sumWith_unplaced] at hterm
    exact hterm
  | closeParen lhs inner level outer v span =>
    rw [Move.unplaced, OpenEquation.withOperand_unplaced, Level.sumWith_unplaced]
    exact .closeParen _ inner.unplaced level.unplaced (outer.map Level.unplaced) v.unplaced .nowhere
  | finish lhs level v span =>
    have hfinish := Step.finish lhs.unplaced level.unplaced v.unplaced .nowhere
    rw [← Level.sumWith_unplaced] at hfinish
    exact hfinish

/-- **One token, without places.** A token that takes no step takes none without its place either,
    so the two agree in both cases. -/
theorem Phase.next_unplaced (phase : Phase) (x : Lexeme) :
    phase.unplaced.next x.unplaced = (phase.next x).map Move.unplaced := by
  cases hnext : phase.next x with
  | some move => exact (Step.of_next hnext).unplaced.next_eq
  | none =>
    -- a phase reads what it expects, and what it expects has no places
    have hiff := mem_expected_iff phase x
    have hiff' := mem_expected_iff phase.unplaced x.unplaced
    rw [Phase.expected_unplaced] at hiff'
    have hnone := hiff'.symm.trans hiff
    rw [hnext] at hnone
    simpa using hnone

/-! ## Runs -/

/-- What the parser gives, without places. -/
def unplacedResult {α β : Type} (f : α → β) (r : Except SyntaxError α) : Except SyntaxError β :=
  (r.map f).mapError SyntaxError.unplaced

/-- Reading on from any phase, with any statements done: by induction on the tokens that are
    left. -/
theorem parseFrom_unplaced (xs : List Lexeme) : ∀ done phase,
    parseFrom (done.map Statement.unplaced) phase.unplaced (xs.map Lexeme.unplaced)
      = unplacedResult (List.map Statement.unplaced) (parseFrom done phase xs) := by
  induction xs with
  | nil =>
    intro done phase
    have hexpected := phase.expected_unplaced
    cases phase with
    | idle => rfl
    | _ =>
      -- the text ends too early: all that is reported is what was expected
      simp only [List.map_nil, Phase.unplaced, parseFrom] at hexpected ⊢
      rw [hexpected]
      rfl
  | cons x xs ih =>
    intro done phase
    rw [List.map_cons, parseFrom, parseFrom, Phase.next_unplaced]
    cases phase.next x with
    | none =>
      rw [Phase.expected_unplaced]
      rfl
    | some move =>
      cases move with
      | on phase' => exact ih done phase'
      | done stmt =>
        have hdone := ih (done ++ [stmt]) .idle
        rw [List.map_append] at hdone
        exact hdone

/-- **Parsing without places** gives the same program or the same error, without places. -/
theorem parse_unplaced (length : Nat) (xs : List Lexeme) :
    parse 0 (xs.map Lexeme.unplaced) = unplacedResult Program.unplaced (parse length xs) := by
  have hspan : programSpan 0 (xs.map Lexeme.unplaced) = .nowhere := by
    unfold programSpan
    rw [List.head?_map, List.getLast?_map]
    cases xs.head? <;> cases xs.getLast? <;> rfl
  have hrun := parseFrom_unplaced xs [] .idle
  rw [parse_eq, hspan, show parseFrom [] .idle (xs.map Lexeme.unplaced) = _ from hrun, parse_eq]
  cases parseFrom [] .idle xs <;> rfl

end Stencil.Source
