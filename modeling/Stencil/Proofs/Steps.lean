import Mathlib
import Stencil.Proofs.Automaton
import Stencil.Proofs.Grammar

/-!
# Steps of a phase

What a token can do to a phase is said once, as a relation: `Step.next_eq` and `Step.of_next` say
that it is the function that reads a token at a time. Where reading succeeds, the next token takes a
step (`step_of_ok`); and tokens that take steps lead from a phase to another one, whatever was read
before and whatever follows (`Reads`). `Arrives` is the same from the start of a text: the
statements done and the phase that the tokens so far lead to.

The relation has one constructor for each token that a phase can read, where the function is a nest
of matches that share cases. Proofs about reading go through the relation and never open the
function. A token that becomes readable somewhere is one more constructor and one more case in each
of them.
-/

namespace Stencil.Source

open Grammar (Sign Scale)

/-! ## Steps -/

/-- The sign of an offset is a minus. -/
def Grammar.Sign.negative : Sign → Bool
  | .plus => false
  | .minus => true

/-- What a token does to a phase. -/
inductive Step : Phase → Lexeme → Move → Prop where
  | keyword (k : Keyword) (span : Span) :
      Step .idle (k.lexeme span) (.on (.header k span.start))
  | grid (g : Ident) : Step .idle g.lexeme (.on (.point .target g .named))
  | name (k : Keyword) (start : Nat) (n : Ident) :
      Step (.header k start) n.lexeme (.on (afterHeader k start n))
  | setEquals (start : Nat) (n : Ident) (span : Span) :
      Step (.setting start n) (Symbol.equals.lexeme span) (.on (.settingValue start n))
  | setValue (start : Nat) (n : Ident) (v : Number) :
      Step (.settingValue start n) v.lexeme (.on (.closing start (.set n v.value v.span)))
  | domainComma (start : Nat) (ns : List Ident) (span : Span) :
      Step (.domains start ns) (Symbol.comma.lexeme span) (.on (.domainsMore start ns))
  | domainEnd (start : Nat) (ns : List Ident) (span : Span) :
      Step (.domains start ns) (Symbol.semicolon.lexeme span)
        (.done ⟨.domain ns, ⟨start, span.stop⟩⟩)
  | domainName (start : Nat) (ns : List Ident) (n : Ident) :
      Step (.domainsMore start ns) n.lexeme (.on (.domains start (ns ++ [n])))
  | gridOpen (start : Nat) (g : Ident) (span : Span) :
      Step (.gridNamed start g) (Symbol.openParen.lexeme span) (.on (.gridOpened start g))
  | gridFirst (start : Nat) (g d : Ident) :
      Step (.gridOpened start g) d.lexeme (.on (.gridDims start g [d]))
  | gridEmpty (start : Nat) (g : Ident) (span : Span) :
      Step (.gridOpened start g) (Symbol.closeParen.lexeme span)
        (.on (.closing start (.grid g [])))
  | gridComma (start : Nat) (g : Ident) (ds : List Ident) (span : Span) :
      Step (.gridDims start g ds) (Symbol.comma.lexeme span) (.on (.gridMore start g ds))
  | gridClose (start : Nat) (g : Ident) (ds : List Ident) (span : Span) :
      Step (.gridDims start g ds) (Symbol.closeParen.lexeme span)
        (.on (.closing start (.grid g ds)))
  | gridDim (start : Nat) (g : Ident) (ds : List Ident) (d : Ident) :
      Step (.gridMore start g ds) d.lexeme (.on (.gridDims start g (ds ++ [d])))
  | semicolon (start : Nat) (c : Clause) (span : Span) :
      Step (.closing start c) (Symbol.semicolon.lexeme span) (.done ⟨c, ⟨start, span.stop⟩⟩)
  | pointOpen (site : Site) (g : Ident) (span : Span) :
      Step (.point site g .named) (Symbol.openParen.lexeme span) (.on (.point site g .opened))
  | pointFirst (site : Site) (g d : Ident) :
      Step (.point site g .opened) d.lexeme (.on (.point site g (.index [] d)))
  | pointEmpty (site : Site) (g : Ident) (span : Span) :
      Step (.point site g .opened) (Symbol.closeParen.lexeme span)
        (.on (closePoint site g [] span.stop))
  | indexSign (site : Site) (g : Ident) (is : List Index) (d : Ident) (sign : Sign)
      (span : Span) :
      Step (.point site g (.index is d)) (sign.symbol.lexeme span)
        (.on (.point site g (.signed is d sign.negative)))
  | indexComma (site : Site) (g : Ident) (is : List Index) (d : Ident) (span : Span) :
      Step (.point site g (.index is d)) (Symbol.comma.lexeme span)
        (.on (.point site g (.separated (is ++ [.bare d]))))
  | indexClose (site : Site) (g : Ident) (is : List Index) (d : Ident) (span : Span) :
      Step (.point site g (.index is d)) (Symbol.closeParen.lexeme span)
        (.on (closePoint site g (is ++ [.bare d]) span.stop))
  | indexOffset (site : Site) (g : Ident) (is : List Index) (d : Ident) (negative : Bool)
      (v : Number) :
      Step (.point site g (.signed is d negative)) v.lexeme
        (.on (.point site g (.indexed (is ++ [.shifted d negative v.value v.span.stop]))))
  | pointComma (site : Site) (g : Ident) (is : List Index) (span : Span) :
      Step (.point site g (.indexed is)) (Symbol.comma.lexeme span)
        (.on (.point site g (.separated is)))
  | pointClose (site : Site) (g : Ident) (is : List Index) (span : Span) :
      Step (.point site g (.indexed is)) (Symbol.closeParen.lexeme span)
        (.on (closePoint site g is span.stop))
  | pointDim (site : Site) (g : Ident) (is : List Index) (d : Ident) :
      Step (.point site g (.separated is)) d.lexeme (.on (.point site g (.index is d)))
  | equals (lhs : Point) (span : Span) :
      Step (.target lhs) (Symbol.equals.lexeme span) (.on (.operand ⟨lhs, .empty, []⟩))
  | sign (e : OpenEquation) (span : Span) :
      Step (.operand e) (Symbol.minus.lexeme span) (.on (.operand (e.withSign span)))
  | number (e : OpenEquation) (v : Number) :
      Step (.operand e) v.lexeme (.on (e.withOperand (.number v.value v.span)))
  | point (e : OpenEquation) (g : Ident) :
      Step (.operand e) g.lexeme (.on (.point (.operand e) g .named))
  | openParen (e : OpenEquation) (span : Span) :
      Step (.operand e) (Symbol.openParen.lexeme span) (.on (.operand e.nested))
  | factor (e : OpenEquation) (v : Expr) (scale : Scale) (span : Span) :
      Step (.operator e v) (scale.symbol.lexeme span)
        (.on (.operand ⟨e.lhs, ⟨e.level.sum, some ⟨v, scale.operator⟩, []⟩, e.outer⟩))
  | term (e : OpenEquation) (v : Expr) (sign : Sign) (span : Span) :
      Step (.operator e v) (sign.symbol.lexeme span)
        (.on (.operand ⟨e.lhs, ⟨some ⟨e.level.sumWith v, sign.operator⟩, none, []⟩, e.outer⟩))
  | closeParen (lhs : Point) (inner level : Level) (outer : List Level) (v : Expr) (span : Span) :
      Step (.operator ⟨lhs, inner, level :: outer⟩ v) (Symbol.closeParen.lexeme span)
        (.on (OpenEquation.withOperand ⟨lhs, level, outer⟩ (inner.sumWith v)))
  | finish (lhs : Point) (level : Level) (v : Expr) (span : Span) :
      Step (.operator ⟨lhs, level, []⟩ v) (Symbol.semicolon.lexeme span)
        (.done ⟨.equation lhs (level.sumWith v), ⟨lhs.span.start, span.stop⟩⟩)

/-- The function takes every step that is listed, by looking at the phase and the token. -/
theorem Step.next_eq {phase : Phase} {x : Lexeme} {move : Move} (h : Step phase x move) :
    phase.next x = some move := by
  cases h with
  | indexSign site g is d sign span => cases sign <;> rfl
  | factor e v scale span =>
    obtain ⟨lhs, level, outer⟩ := e
    cases scale <;> cases outer <;> rfl
  | term e v sign span =>
    obtain ⟨lhs, level, outer⟩ := e
    cases sign <;> cases outer <;> rfl
  | _ => rfl

/-- Inside a point, what the function does is listed: names, signs, offsets, commas and the closing
    parenthesis. -/
theorem Step.of_pointNext {site : Site} {g : Ident} {phase : PointPhase} {x : Lexeme}
    {phase' : Phase} (h : phase.next site g x = some phase') :
    Step (.point site g phase) x (.on phase') := by
  obtain ⟨token, span⟩ := x
  -- one case for each line of the definition, in its order
  unfold PointPhase.next at h
  dsimp only at h
  split at h
  · exact Option.some.inj h ▸ .pointOpen site g span
  · exact Option.some.inj h ▸ .pointFirst site g ⟨_, span⟩
  · exact Option.some.inj h ▸ .pointEmpty site g span
  · exact Option.some.inj h ▸ .indexSign site g _ _ .plus span
  · exact Option.some.inj h ▸ .indexSign site g _ _ .minus span
  · exact Option.some.inj h ▸ .indexComma site g _ _ span
  · exact Option.some.inj h ▸ .indexClose site g _ _ span
  · exact Option.some.inj h ▸ .indexOffset site g _ _ _ ⟨_, span⟩
  · exact Option.some.inj h ▸ .pointComma site g _ span
  · exact Option.some.inj h ▸ .pointClose site g _ span
  · exact Option.some.inj h ▸ .pointDim site g _ ⟨_, span⟩
  · exact absurd h (by simp)

/-- After an operand, an operator goes on with the sum or with the product, according to how
    strongly it binds. -/
theorem Step.of_afterOperator {e : OpenEquation} {v : Expr} {s : Symbol} {phase : Phase}
    (h : e.afterOperator v s = some phase) (span : Span) :
    Step (.operator e v) (s.lexeme span) (.on phase) := by
  cases s with
  | star => exact Option.some.inj h ▸ .factor e v .star span
  | slash => exact Option.some.inj h ▸ .factor e v .slash span
  | plus => exact Option.some.inj h ▸ .term e v .plus span
  | minus => exact Option.some.inj h ▸ .term e v .minus span
  | _ => exact absurd h (by simp [OpenEquation.afterOperator, Symbol.productOperator?,
      Symbol.sumOperator?])

/-- After an operand, what the function does is listed: an operator, the end of a level, or the end
    of the equation. -/
theorem Step.of_operatorNext {e : OpenEquation} {v : Expr} {x : Lexeme} {move : Move}
    (h : e.next v x = some move) : Step (.operator e v) x move := by
  obtain ⟨token, span⟩ := x
  obtain ⟨lhs, level, outer⟩ := e
  unfold OpenEquation.next at h
  dsimp only at h
  split at h
  · exact Option.some.inj h ▸ .closeParen lhs level _ _ v span
  · exact Option.some.inj h ▸ .finish lhs level v span
  · obtain ⟨phase, hphase, rfl⟩ := Option.map_eq_some_iff.mp h
    exact .of_afterOperator hphase span
  · exact absurd h (by simp)

/-- **What a token can do to a phase**: nothing but the steps. -/
theorem Step.of_next {phase : Phase} {x : Lexeme} {move : Move} (h : phase.next x = some move) :
    Step phase x move := by
  obtain ⟨token, span⟩ := x
  -- one case for each line of the definition, in its order
  unfold Phase.next at h
  dsimp only at h
  split at h
  · exact Option.some.inj h ▸ .keyword _ span
  · exact Option.some.inj h ▸ .grid ⟨_, span⟩
  · exact Option.some.inj h ▸ .name _ _ ⟨_, span⟩
  · exact Option.some.inj h ▸ .setEquals _ _ span
  · exact Option.some.inj h ▸ .setValue _ _ ⟨_, span⟩
  · exact Option.some.inj h ▸ .domainComma _ _ span
  · exact Option.some.inj h ▸ .domainEnd _ _ span
  · exact Option.some.inj h ▸ .domainName _ _ ⟨_, span⟩
  · exact Option.some.inj h ▸ .gridOpen _ _ span
  · exact Option.some.inj h ▸ .gridFirst _ _ ⟨_, span⟩
  · exact Option.some.inj h ▸ .gridEmpty _ _ span
  · exact Option.some.inj h ▸ .gridComma _ _ _ span
  · exact Option.some.inj h ▸ .gridClose _ _ _ span
  · exact Option.some.inj h ▸ .gridDim _ _ _ ⟨_, span⟩
  · exact Option.some.inj h ▸ .semicolon _ _ span
  · obtain ⟨phase', hphase, rfl⟩ := Option.map_eq_some_iff.mp h
    exact .of_pointNext hphase
  · exact Option.some.inj h ▸ .equals _ span
  · exact Option.some.inj h ▸ .sign _ span
  · exact Option.some.inj h ▸ .number _ ⟨_, span⟩
  · exact Option.some.inj h ▸ .point _ ⟨_, span⟩
  · exact Option.some.inj h ▸ .openParen _ span
  · exact .of_operatorNext h
  · exact absurd h (by simp)

/-! ## Runs -/

/-- Reads on after a step. -/
def resume (done : List Statement) : Move → List Lexeme → Except SyntaxError (List Statement)
  | .on phase, xs => parseFrom done phase xs
  | .done statement, xs => parseFrom (done ++ [statement]) .idle xs

/-- Reading a token that takes a step is going on from where the step leads. -/
theorem Step.parseFrom_eq {phase : Phase} {x : Lexeme} {move : Move} (h : Step phase x move)
    (done : List Statement) (xs : List Lexeme) :
    parseFrom done phase (x :: xs) = resume done move xs := by
  rw [parseFrom, h.next_eq]
  cases move <;> rfl

/-- Where the parser succeeds, the next token takes a step. -/
theorem step_of_cons_ok {done r : List Statement} {phase : Phase} {x : Lexeme} {xs : List Lexeme}
    (h : parseFrom done phase (x :: xs) = .ok r) :
    ∃ move, Step phase x move ∧ resume done move xs = .ok r := by
  rw [parseFrom] at h
  cases hnext : phase.next x with
  | none => rw [hnext] at h; exact absurd h (by simp)
  | some move =>
    rw [hnext] at h
    refine ⟨move, .of_next hnext, ?_⟩
    cases move <;> exact h

/-- Within a statement there is a next token. -/
theorem step_of_ok {done r : List Statement} {phase : Phase} {xs : List Lexeme}
    (hphase : phase ≠ .idle) (h : parseFrom done phase xs = .ok r) :
    ∃ x ys move, xs = x :: ys ∧ Step phase x move ∧ resume done move ys = .ok r := by
  cases xs with
  | nil =>
    cases phase with
    | idle => exact absurd rfl hphase
    | _ => exact absurd h (by simp [parseFrom])
  | cons x ys =>
    obtain ⟨move, hstep, hrun⟩ := step_of_cons_ok h
    exact ⟨x, ys, move, rfl, hstep, hrun⟩

/-- In the middle of a statement a text cannot end, so that there must be a token left. -/
theorem length_pos_of_ok {done r : List Statement} {phase : Phase} {xs : List Lexeme}
    (hphase : phase ≠ .idle) (h : parseFrom done phase xs = .ok r) : 0 < xs.length := by
  obtain ⟨x, ys, move, rfl, _, _⟩ := step_of_ok hphase h
  exact Nat.succ_pos _

/-- The tokens lead from one phase to another, within the statement. -/
def Reads (phase : Phase) (xs : List Lexeme) (phase' : Phase) : Prop :=
  ∀ done rest, parseFrom done phase (xs ++ rest) = parseFrom done phase' rest

theorem Reads.nil (phase : Phase) : Reads phase [] phase := fun _ _ => rfl

theorem Reads.cons {phase phase' phase'' : Phase} {x : Lexeme} {xs : List Lexeme}
    (h : Step phase x (.on phase')) (hrest : Reads phase' xs phase'') :
    Reads phase (x :: xs) phase'' :=
  fun done rest => (h.parseFrom_eq done (xs ++ rest)).trans (hrest done rest)

/-- Tokens that lead from one phase to a second, then tokens that lead from there to a third. -/
theorem Reads.append {phase phase' phase'' : Phase} {xs ys : List Lexeme}
    (h : Reads phase xs phase') (hrest : Reads phase' ys phase'') :
    Reads phase (xs ++ ys) phase'' := by
  intro done rest
  rw [List.append_assoc, h, hrest]

/-- The tokens lead from the start of a text to the phase, with the statements before it. -/
def Arrives (before : List Lexeme) (done : List Statement) (phase : Phase) : Prop :=
  ∀ rest, parseFrom [] .idle (before ++ rest) = parseFrom done phase rest

section Arrives

variable {before : List Lexeme} {done : List Statement} {phase : Phase} {x : Lexeme}

theorem Arrives.on (h : Arrives before done phase) {phase' : Phase}
    (hstep : Step phase x (.on phase')) : Arrives (before ++ [x]) done phase' := by
  intro rest
  rw [List.append_assoc, h]
  exact hstep.parseFrom_eq done rest

/-- One more token that ends a statement: it is done, and the next one can begin. -/
theorem Arrives.finish (h : Arrives before done phase) {statement : Statement}
    (hstep : Step phase x (.done statement)) :
    Arrives (before ++ [x]) (done ++ [statement]) .idle := by
  intro rest
  rw [List.append_assoc, h]
  exact hstep.parseFrom_eq done rest

/-- Whatever the step, the tokens with the one that it reads lead to a phase. -/
theorem Arrives.step (h : Arrives before done phase) {move : Move} (hstep : Step phase x move) :
    ∃ done' phase', Arrives (before ++ [x]) done' phase' := by
  cases move with
  | on phase' => exact ⟨done, phase', h.on hstep⟩
  | done statement => exact ⟨done ++ [statement], .idle, h.finish hstep⟩

end Arrives

end Stencil.Source
