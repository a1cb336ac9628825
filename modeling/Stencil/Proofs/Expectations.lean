import Mathlib
import Stencil.Proofs.Parsing

/-!
# Syntax errors are precise

A syntax error is reported at the first token that no program can have there, and it lists exactly
what a program can have there instead.

The error is the record that the parser is left with, after all its alternatives were tried and
taken back. That record is where the text gets stuck when it is read a token at a time
(`record_of_error`), and all that is known then of the tokens before it is a phase. Two facts about
phases carry the result: **every phase can be completed** (`completes`), so that the tokens that lead
to it start a program; and **a phase expects exactly what it can read** (`mem_expected_iff`), so that
nothing on its list is stale and nothing is missing from it.
-/

namespace Stencil.Source

/-! ## Programs and their starts -/

/-- The tokens are those of a program. -/
def IsProgram (xs : List Lexeme) : Prop := ∃ p : Grammar.Program, p.lexemes = xs

/-- The tokens are the first ones of a program. -/
def StartsProgram (xs : List Lexeme) : Prop := ∃ ys, IsProgram (xs ++ ys)

theorem isProgram_iff (xs : List Lexeme) :
    IsProgram xs ↔ ∃ r, parseFrom [] .idle xs = .ok r := by
  constructor
  · rintro ⟨⟨ss⟩, rfl⟩
    exact ⟨_, parseFrom_statements ss []⟩
  · rintro ⟨r, h⟩
    obtain ⟨ss, hss⟩ := statements_of_ok _ xs (Nat.le_refl _) [] h
    exact ⟨⟨ss⟩, hss⟩

theorem isOk_parseFrom_iff (xs : List Lexeme) :
    (parseFrom [] .idle xs).isOk = true ↔ IsProgram xs := by
  rw [isProgram_iff]
  cases parseFrom [] .idle xs with
  | ok r => simp [Except.isOk, Except.toBool]
  | error e => simp [Except.isOk, Except.toBool]

instance (xs : List Lexeme) : Decidable (IsProgram xs) :=
  decidable_of_iff _ (isOk_parseFrom_iff xs)

/-! ## Every phase can be completed -/

/-- Some tokens lead from the phase to the end of a program. -/
def Completes (phase : Phase) : Prop := ∀ done, ∃ ys r, parseFrom done phase ys = .ok r

theorem completes_idle : Completes .idle := fun done => ⟨[], done, rfl⟩

/-- A phase can be completed if a token leads from it to one that can. -/
theorem Step.completes {phase phase' : Phase} {x : Lexeme} (h : Step phase x (.on phase'))
    (hphase : Completes phase') : Completes phase := by
  intro done
  obtain ⟨ys, r, hr⟩ := hphase done
  exact ⟨x :: ys, r, (h.parseFrom_eq done ys).trans hr⟩

/-- A phase can be completed if a token ends its statement. -/
theorem Step.completes_done {phase : Phase} {x : Lexeme} {stmt : Statement}
    (h : Step phase x (.done stmt)) : Completes phase :=
  fun done => ⟨[x], done ++ [stmt], h.parseFrom_eq done []⟩

theorem completes_closing (start : Nat) (c : Clause) : Completes (.closing start c) :=
  (Step.semicolon start c default).completes_done

/-- After an operand, the open parentheses are closed one by one, and then the statement. -/
theorem completes_operator (lhs : Point) (outer : List Level) :
    ∀ level v, Completes (.operator ⟨lhs, level, outer⟩ v) := by
  induction outer with
  | nil => intro level v; exact (Step.finish lhs level v default).completes_done
  | cons level' outer ih =>
    intro level v
    exact (Step.closeParen lhs level level' outer v default).completes (ih _ _)

theorem completes_operand (e : OpenEquation) : Completes (.operand e) :=
  (Step.number e ⟨.zero, default⟩).completes (completes_operator e.lhs e.outer _ _)

theorem completes_target (lhs : Point) : Completes (.target lhs) :=
  (Step.equals lhs default).completes (completes_operand _)

/-- After a whole point its site can be completed. -/
theorem completes_close (site : Site) (p : Point) : Completes (site.close p) := by
  cases site with
  | target => exact completes_target p
  | operand e => exact completes_operator e.lhs e.outer _ _

theorem completes_point (site : Site) (g : Ident) (phase : PointPhase) :
    Completes (.point site g phase) := by
  have hclose : ∀ is, Completes (.point site g (.indexed is)) := fun is =>
    (Step.pointClose site g is default).completes (completes_close site _)
  have hindex : ∀ is d, Completes (.point site g (.index is d)) := fun is d =>
    (Step.indexClose site g is d default).completes (completes_close site _)
  have hopened : Completes (.point site g .opened) :=
    (Step.pointEmpty site g default).completes (completes_close site _)
  cases phase with
  | named => exact (Step.pointOpen site g default).completes hopened
  | opened => exact hopened
  | index is d => exact hindex is d
  | signed is d negative =>
    exact (Step.indexOffset site g is d negative ⟨.zero, default⟩).completes (hclose _)
  | indexed is => exact hclose is
  | separated is => exact (Step.pointDim site g is ⟨"a", default⟩).completes (hindex is _)

/-- **Every phase can be completed**: whatever has been read of a statement, some tokens would end
    it. -/
theorem completes (phase : Phase) : Completes phase := by
  -- phases are completed from the last one of a statement backwards, each by its shortest step
  have hvalue : ∀ start n, Completes (.settingValue start n) := fun start n =>
    (Step.setValue start n ⟨.zero, default⟩).completes (completes_closing _ _)
  have hsetting : ∀ start n, Completes (.setting start n) := fun start n =>
    (Step.setEquals start n default).completes (hvalue start n)
  have hdomains : ∀ start ns, Completes (.domains start ns) := fun start ns =>
    (Step.domainEnd start ns default).completes_done
  have hopened : ∀ start g, Completes (.gridOpened start g) := fun start g =>
    (Step.gridEmpty start g default).completes (completes_closing _ _)
  have hnamed : ∀ start g, Completes (.gridNamed start g) := fun start g =>
    (Step.gridOpen start g default).completes (hopened start g)
  have hdims : ∀ start g ds, Completes (.gridDims start g ds) := fun start g ds =>
    (Step.gridClose start g ds default).completes (completes_closing _ _)
  cases phase with
  | idle => exact completes_idle
  | header k start =>
    refine (Step.name k start ⟨"a", default⟩).completes ?_
    cases k with
    | solution => exact completes_closing _ _
    | set => exact hsetting start _
    | step => exact completes_closing _ _
    | domain => exact hdomains start _
    | grid => exact hnamed start _
  | setting start n => exact hsetting start n
  | settingValue start n => exact hvalue start n
  | domains start ns => exact hdomains start ns
  | domainsMore start ns =>
    exact (Step.domainName start ns ⟨"a", default⟩).completes (hdomains start _)
  | gridNamed start g => exact hnamed start g
  | gridOpened start g => exact hopened start g
  | gridDims start g ds => exact hdims start g ds
  | gridMore start g ds =>
    exact (Step.gridDim start g ds ⟨"a", default⟩).completes (hdims start g _)
  | closing start c => exact completes_closing start c
  | point site g phase => exact completes_point site g phase
  | target lhs => exact completes_target lhs
  | operand e => exact completes_operand e
  | operator e v => exact completes_operator e.lhs e.outer e.level v

/-- All expectations. -/
def Expectation.all : List Expectation :=
  Keyword.all.map (fun k => terminal (.keyword k)) ++ Symbol.all.map symbol
    ++ [terminal .number, terminal .ident, endOfInput]

theorem Expectation.mem_all (e : Expectation) : e ∈ all := by
  cases e with
  | endOfInput => decide
  | terminal t =>
    cases t with
    | keyword k => cases k <;> decide
    | symbol s => cases s <;> decide
    | number => decide
    | ident => decide

/-- Messages show different expectations differently, so that what is listed once is shown once. -/
theorem Expectation.text_injective : Function.Injective Expectation.text := by
  have hnodup : (all.map text).Nodup := by decide
  intro e e' h
  exact List.inj_on_of_nodup_map hnodup e.mem_all e'.mem_all h

/-! ## What the phase says of the tokens before it -/

section Stops

variable {before : List Lexeme} {done : List Statement} {phase : Phase}

theorem Arrives.startsProgram (h : Arrives before done phase) : StartsProgram before := by
  obtain ⟨ys, r, hr⟩ := completes phase done
  exact ⟨ys, (isProgram_iff _).mpr ⟨r, (h ys).trans hr⟩⟩

/-- **One more token starts a program exactly if the phase can read it.** -/
theorem Arrives.startsProgram_concat_iff (h : Arrives before done phase) (x : Lexeme) :
    StartsProgram (before ++ [x]) ↔ (phase.next x).isSome = true := by
  constructor
  · rintro ⟨ys, hys⟩
    obtain ⟨r, hr⟩ := (isProgram_iff _).mp hys
    rw [List.append_assoc, h] at hr
    obtain ⟨move, hstep, _⟩ := step_of_cons_ok hr
    rw [hstep.next_eq]
    rfl
  · intro hsome
    obtain ⟨move, hmove⟩ := Option.isSome_iff_exists.mp hsome
    obtain ⟨done', phase', harrives⟩ := h.step (.of_next hmove)
    exact harrives.startsProgram

/-- The tokens are a program exactly if no statement is open after them. -/
theorem Arrives.isProgram_iff (h : Arrives before done phase) :
    IsProgram before ↔ phase = .idle := by
  have hend : parseFrom [] .idle before = parseFrom done phase [] := by simpa using h []
  rw [Source.isProgram_iff, hend]
  constructor
  · rintro ⟨r, hr⟩
    by_contra hne
    exact absurd (length_pos_of_ok hne hr) (by simp)
  · rintro rfl
    exact ⟨done, rfl⟩

end Stops

/-- **Syntax errors are precise.** A text that cannot be read leaves a record of failures, with a
    place `i` in it, which is what is reported. The tokens before `i` start a program and with token
    `i` they do not. The list of what was expected shows nothing twice. A kind of token is on it
    exactly if the tokens before `i` and a token of this kind start a program, and the end of the
    input exactly if the tokens before `i` are a program. -/
theorem parse_error_precise (length : Nat) (xs : List Lexeme) (e : SyntaxError)
    (h : parse length xs = .error e) :
    ∃ r, Parser.program ⟨0, 0, xs⟩ .start = (none, r)
      ∧ r.place ≤ xs.length ∧ e.found = xs[r.place]? ∧ e.expected = r.expected
      ∧ StartsProgram (xs.take r.place)
      ∧ (r.place < xs.length → ¬ StartsProgram (xs.take (r.place + 1)))
      ∧ (e.expected.map Expectation.text).Nodup
      ∧ (∀ x : Lexeme, .terminal x.token.terminal ∈ e.expected
          ↔ StartsProgram (xs.take r.place ++ [x]))
      ∧ (.endOfInput ∈ e.expected ↔ IsProgram (xs.take r.place)) := by
  -- what starts a program is what leads to a phase, so that all that follows is about one phase
  obtain ⟨r, hprogram, rfl, done, phase, hstuck⟩ := record_of_error h
  have hexpected : (r.error xs).expected = phase.expected := hstuck.expected
  refine ⟨r, hprogram, hstuck.place, rfl, rfl, hstuck.arrives.startsProgram, ?_, ?_, ?_, ?_⟩
  · intro hlt
    have hx := List.getElem?_eq_getElem hlt
    rw [List.take_add_one, hx, Option.toList_some, hstuck.arrives.startsProgram_concat_iff,
      hstuck.next_eq_none hx]
    exact Bool.false_ne_true
  · rw [hexpected]
    exact (nodup_expected phase).map Expectation.text_injective
  · intro x
    rw [hexpected, hstuck.arrives.startsProgram_concat_iff]
    exact mem_expected_iff phase x
  · rw [hexpected, hstuck.arrives.isProgram_iff]
    exact endOfInput_mem_expected_iff phase

/-- A minus sign without an operand. -/
theorem parse_error_precise_dangling :
    let xs := (scan "u(x)=1-;").lexemes
    ∃ e, parse 8 xs = .error e
      ∧ e.message = "found ';' expected '-', something else, '<ident>', or '('"
      ∧ ∃ r, Parser.program ⟨0, 0, xs⟩ .start = (none, r) ∧ e.found = xs[r.place]?
        ∧ StartsProgram (xs.take r.place)
        ∧ ∀ x : Lexeme, .terminal x.token.terminal ∈ e.expected
          ↔ StartsProgram (xs.take r.place ++ [x]) := by
  intro xs
  have herror : parse 8 xs = .error ⟨some ⟨.symbol .semicolon, ⟨7, 8⟩⟩,
      [.symbol .minus, .terminal .number, .terminal .ident, .symbol .openParen]⟩ := by
    decide +kernel
  obtain ⟨r, hprogram, _, hfound, _, hstarts, _, _, hexpected, _⟩ := parse_error_precise 8 xs _ herror
  exact ⟨_, herror, by decide, r, hprogram, hfound, hstarts, hexpected⟩

end Stencil.Source
