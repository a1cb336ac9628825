import Mathlib
import Stencil.Proofs.Backtracking
import Stencil.Proofs.Steps

/-!
# The parser reads a token at a time

The parser tries its alternatives one after the other and goes back where one of them fails. It
gives the program, or the error, that reading a token at a time gives (`parse_eq`).

The proof follows both through a text. **Where the two stand together** (`Stands`), the phase is the
one that the tokens so far lead to, and the record holds that part of what the phase expects which
the parser has tried at this place; the rest is `todo`. A token that the parser reads is a step of
the phase, after which everything is still to be tried. When nothing is left to be tried, the record
holds exactly what the phase expects, and the text fails here.

Each parser of the grammar then has one lemma on what it comes to: from a phase where it is what the
grammar asks for, to the phase after what it has read. Where the parser is one of several ways to go
on, the lemma is about the tokens that it can start with (`point_read`); where there is no other way
to go on, it is about any tokens (`unary_required`).

The lemmas come in the order of the grammar: tokens, lists and parentheses, points, operands,
operators, expressions, clauses, statements, the program. Each is proved from those before it by the
rule for the combinator it is made of. Expressions are recursive through parentheses, and there the
induction is on the fuel of the recursion: an opening parenthesis is a token read, so that the fuel
left is always enough for the tokens left (`readsExpr_recursiveUpTo`).

Two facts come out of this. A successful parse is the program that the phases lead to. A failed one
has a record whose place is the first token that no phase could read, and whose list is what the
phase before it expects (`record_of_error`).
-/

namespace Stencil.Source

open Stencil.Source.Parser (Outcome Refuses)

/-! ## Where parser and phase stand together -/

/-- What is left of the tokens is what was expected. -/
def Expectation.Meets : Expectation → List Lexeme → Prop
  | terminal t, xs => Starts [t] xs
  | endOfInput, xs => xs = []

/-- The phase that the tokens up to the place of the record lead to expects what the record holds,
    and nothing of it is there. -/
structure Stuck (all : List Lexeme) (r : Record) (done : List Statement) (phase : Phase) : Prop where
  place : r.place ≤ all.length
  arrives : Arrives (all.take r.place) done phase
  expected : r.expected = phase.expected
  unmet : ∀ e ∈ phase.expected, ¬ e.Meets (all.drop r.place)

/-- **The record is the error of the text.** -/
def IsError (all : List Lexeme) (r : Record) : Prop := ∃ done phase, Stuck all r done phase

section Stuck

variable {all : List Lexeme} {r : Record} {done : List Statement} {phase : Phase}

/-- The token at the record's place is not expected by the phase there, and so cannot be read. -/
theorem Stuck.next_eq_none (h : Stuck all r done phase) {x : Lexeme}
    (hx : all[r.place]? = some x) : phase.next x = none := by
  rw [← List.head?_drop] at hx
  obtain ⟨xs, hrest⟩ := List.head?_eq_some_iff.mp hx
  by_contra hsome
  refine h.unmet _ ((mem_expected_iff phase x).mpr (Option.isSome_iff_ne_none.mpr hsome)) ?_
  rw [hrest]
  exact List.mem_singleton.mpr rfl

/-- Reading a token at a time gives the error, too. -/
theorem Stuck.parseFrom_eq (h : Stuck all r done phase) :
    parseFrom [] .idle all = .error (r.error all) := by
  have hrun := h.arrives (all.drop r.place)
  rw [List.take_append_drop] at hrun
  rw [hrun, Record.error, h.expected, ← List.head?_drop]
  cases hrest : all.drop r.place with
  | nil =>
    have hphase : phase ≠ .idle := fun hidle =>
      h.unmet .endOfInput ((endOfInput_mem_expected_iff phase).mpr hidle) hrest
    cases phase with
    | idle => exact absurd rfl hphase
    | _ => rfl
  | cons x xs =>
    have hx : all[r.place]? = some x := by rw [← List.head?_drop, hrest, List.head?_cons]
    rw [parseFrom, h.next_eq_none hx]
    rfl

end Stuck

/-- **The parser stands where the phase does**, and has everything in `todo` still to try. -/
structure Stands (all : List Lexeme) (done : List Statement) (phase : Phase)
    (todo : List Expectation) (input : Input) (r : Record) : Prop where
  arrives : Arrives (all.take input.place) done phase
  rest : input.rest = all.drop input.place
  place : input.place ≤ all.length
  /-- What was tried is on record. -/
  record : r.missAll input.place todo = ⟨input.place, phase.expected⟩
  /-- What was tried is not there. -/
  tried : ∀ e ∈ phase.expected, e ∉ todo → ¬ e.Meets input.rest

/-- The parser has just read a token and has tried nothing yet. -/
abbrev Fresh (all : List Lexeme) (done : List Statement) (phase : Phase) (input : Input)
    (r : Record) : Prop :=
  Stands all done phase phase.expected input r

variable {all : List Lexeme} {done : List Statement} {phase : Phase} {todo : List Expectation}
  {input : Input} {r : Record} {first ahead : List Terminal} {least : Nat} {α : Type}

namespace Stands

/-- The record is never ahead of a parser that stands together with a phase. -/
theorem record_le (h : Stands all done phase todo input r) : r.place ≤ input.place := by
  have hle := r.le_place_missAll input.place todo
  rwa [h.record] at hle

/-- What is left to read is the text without what has been read, which ties the parser's input to
    the place it counts. -/
theorem length_rest (h : Stands all done phase todo input r) :
    input.rest.length = all.length - input.place := by
  rw [h.rest, List.length_drop]

/-- An alternative that is tried and missed moves from what is to be tried to what the record
    holds. -/
theorem miss {e : Expectation} (h : Stands all done phase (e :: todo) input r)
    (hnot : ¬ e.Meets input.rest) : Stands all done phase todo input (r.miss input.place e) where
  arrives := h.arrives
  rest := h.rest
  place := h.place
  record := h.record
  tried := by
    intro e' he' htodo
    by_cases heq : e' = e
    · exact heq ▸ hnot
    · exact h.tried e' he' (List.not_mem_cons_of_ne_of_not_mem heq htodo)

/-- **Several alternatives missed in a row**, which is what a choice does where none of them can
    start. -/
theorem missAll (first : List Terminal)
    (h : Stands all done phase (first.map .terminal ++ todo) input r)
    (hstarts : ¬ Starts first input.rest) :
    Stands all done phase todo input (r.missAll input.place (first.map .terminal)) := by
  induction first generalizing r with
  | nil => exact h
  | cons t first ih =>
    rw [← List.singleton_append, starts_append, not_or] at hstarts
    exact ih (h.miss hstarts.1) hstarts.2

/-- When nothing is left to be tried, the text fails here: the record holds what the phase expects,
    all of it, and in its order. -/
theorem isError (h : Stands all done phase [] input r) : IsError all r ∧ r.place = input.place := by
  have hrecord : r = ⟨input.place, phase.expected⟩ := h.record
  subst hrecord
  refine ⟨⟨done, phase, h.place, h.arrives, rfl, ?_⟩, rfl⟩
  intro e he
  rw [← h.rest]
  exact h.tried e he List.not_mem_nil

/-- After a token that leads to a phase, everything is to be tried anew. -/
theorem fresh (h : Stands all done phase todo input r) {x : Lexeme} {xs : List Lexeme}
    (hrest : input.rest = x :: xs) {done' : List Statement} {phase' : Phase}
    (harrives : Arrives (all.take input.place ++ [x]) done' phase') :
    Fresh all done' phase' (input.after x xs) r := by
  have hdrop : all.drop input.place = x :: xs := by rw [← h.rest, hrest]
  have hx : all[input.place]? = some x := by rw [← List.head?_drop, hdrop, List.head?_cons]
  obtain ⟨hlt, _⟩ := List.getElem?_eq_some_iff.mp hx
  refine ⟨?_, ?_, hlt, ?_, fun e he hnot => absurd he hnot⟩
  · show Arrives (all.take (input.place + 1)) done' phase'
    rw [List.take_add_one, hx]
    exact harrives
  · show xs = all.drop (input.place + 1)
    rw [← List.drop_drop, hdrop]
    rfl
  · exact Record.missAll_of_past (Nat.lt_succ_of_le h.record_le) (nodup_expected phase')
      (expected_ne_nil phase')

/-- **A token read is a step of the phase**: both have moved on by the same token, and the record is
    behind them. -/
theorem step (h : Stands all done phase todo input r) {x : Lexeme} {xs : List Lexeme}
    (hrest : input.rest = x :: xs) {phase' : Phase} (hstep : Step phase x (.on phase')) :
    Fresh all done phase' (input.after x xs) r :=
  h.fresh hrest (h.arrives.on hstep)

theorem finish (h : Stands all done phase todo input r) {x : Lexeme} {xs : List Lexeme}
    (hrest : input.rest = x :: xs) {statement : Statement}
    (hstep : Step phase x (.done statement)) :
    Fresh all (done ++ [statement]) .idle (input.after x xs) r :=
  h.fresh hrest (h.arrives.finish hstep)

/-- Where the parser stands after a token or more, fewer tokens are left. -/
theorem length_lt {done' : List Statement} {phase' : Phase} {todo' : List Expectation}
    {input' : Input} {r' : Record} (h : Stands all done phase todo input r)
    (h' : Stands all done' phase' todo' input' r') (hplace : input.place + 1 ≤ input'.place) :
    input'.rest.length < input.rest.length := by
  have hend := h'.place
  rw [h.length_rest, h'.length_rest]
  omega

end Stands

/-- **Where there is no other way to go on**, a parser that refuses the next token has found the
    error of the text. -/
theorem Parser.Refuses.required {p : Parser α} {Read : α → Input → Record → Prop}
    (hp : p.Refuses first) (h : Stands all done phase (first.map .terminal) input r)
    (hleast : least ≤ input.place)
    (hread : Starts first input.rest →
      Outcome (IsError all) (input.place + 1) ahead Read (p input r)) :
    Outcome (IsError all) least ahead Read (p input r) := by
  by_cases hstarts : Starts first input.rest
  · exact (hread hstarts).of_le (Nat.le_succ_of_le hleast)
  · rw [← List.append_nil (first.map _)] at h
    obtain ⟨hfatal, hplace⟩ := (Stands.missAll first h hstarts).isError
    rw [hp input r hstarts]
    exact .failed hfatal (hleast.trans hplace.ge)

/-! ## Tokens -/

/-- A symbol is determined by its kind and its place, unlike a name or a number. -/
theorem Symbol.eq_lexeme {x : Lexeme} {s : Symbol} (h : x.token.terminal = .symbol s) :
    x = s.lexeme x.span := by
  obtain ⟨token, span⟩ := x
  cases token with
  | symbol s' =>
    injection h with h
    rw [h]
    rfl
  | _ => exact absurd h (by simp [Token.terminal])

theorem Keyword.eq_lexeme {x : Lexeme} {k : Keyword} (h : x.token.terminal = .keyword k) :
    x = k.lexeme x.span := by
  obtain ⟨token, span⟩ := x
  cases token with
  | keyword k' =>
    injection h with h
    rw [h]
    rfl
  | _ => exact absurd h (by simp [Token.terminal])

namespace Parser

theorem refuses_ident : ident.Refuses [.ident] :=
  refuses_token fun x hx => by
    obtain ⟨token, span⟩ := x
    cases token with
    | ident name => exact absurd rfl hx
    | _ => rfl

theorem refuses_number : number.Refuses [.number] :=
  refuses_token fun x hx => by
    obtain ⟨token, span⟩ := x
    cases token with
    | number v => exact absurd rfl hx
    | _ => rfl

/-- What a symbol or a keyword does on the token it asks for: it goes past it and records
    nothing. -/
theorem just_eq {t : Terminal} {x : Lexeme} {xs : List Lexeme} (hrest : input.rest = x :: xs)
    (ht : x.token.terminal = t) : just t input r = (some ((), input.after x xs), r) := by
  unfold just token
  simp only [hrest, ht, if_true]

/-- **A symbol or a keyword**, where the next token is one and it takes a step. -/
theorem just_read {s : Symbol} {next : Span → Phase} (h : Stands all done phase todo input r)
    (hstarts : Starts [.symbol s] input.rest)
    (hstep : ∀ span, Step phase (s.lexeme span) (.on (next span))) :
    Outcome (IsError all) (input.place + 1) []
      (fun _ input' r' => Fresh all done (next ⟨input.start, input'.stop⟩) input' r')
      (just (.symbol s) input r) := by
  obtain ⟨x, xs, hrest, hx⟩ := hstarts.exists_cons
  have ht := List.mem_singleton.mp hx
  rw [just_eq hrest ht]
  refine .read ?_ le_rfl
  have hspan : input.start = x.span.start := by simp only [Input.start, hrest]
  rw [hspan]
  exact h.step hrest (Symbol.eq_lexeme ht ▸ hstep x.span)

/-- **A name**, with the place of its token. -/
theorem ident_read {next : Ident → Phase} (h : Stands all done phase todo input r)
    (hstarts : Starts [.ident] input.rest)
    (hstep : ∀ n : Ident, Step phase n.lexeme (.on (next n))) :
    Outcome (IsError all) (input.place + 1) []
      (fun n input' r' => Fresh all done (next n) input' r' ∧ n.span = ⟨input.start, input'.stop⟩)
      (ident input r) := by
  obtain ⟨⟨token, span⟩, xs, hrest, hx⟩ := hstarts.exists_cons
  cases token with
  | ident name =>
    have hident : ident input r = (some (⟨name, span⟩, input.after ⟨.ident name, span⟩ xs), r) := by
      unfold ident token
      simp only [hrest]
    rw [hident]
    refine .read ⟨h.step hrest (hstep ⟨name, span⟩), ?_⟩ le_rfl
    simp only [Input.start, hrest]
    rfl
  | _ => exact absurd (List.mem_singleton.mp hx) (by simp [Token.terminal])

/-- **A number**, read with the value that its token has. -/
theorem number_read {next : Number → Phase} (h : Stands all done phase todo input r)
    (hstarts : Starts [.number] input.rest)
    (hstep : ∀ v : Number, Step phase v.lexeme (.on (next v))) :
    Outcome (IsError all) (input.place + 1) []
      (fun v input' r' => Fresh all done (next ⟨v.1, v.2⟩) input' r' ∧ v.2.stop = input'.stop)
      (number input r) := by
  obtain ⟨⟨token, span⟩, xs, hrest, hx⟩ := hstarts.exists_cons
  cases token with
  | number v =>
    have hnumber : number input r = (some ((v, span), input.after ⟨.number v, span⟩ xs), r) := by
      unfold number token
      simp only [hrest]
    rw [hnumber]
    exact .read ⟨h.step hrest (hstep ⟨v, span⟩), rfl⟩ le_rfl
  | _ => exact absurd (List.mem_singleton.mp hx) (by simp [Token.terminal])

/-- **A keyword as the start of a clause**, where the start of the statement is remembered. -/
theorem keyword_read {k : Keyword} (h : Stands all done .idle todo input r)
    (hstarts : Starts [.keyword k] input.rest) :
    Outcome (IsError all) (input.place + 1) []
      (fun _ => Fresh all done (.header k input.start)) (just (.keyword k) input r) := by
  obtain ⟨x, xs, hrest, hx⟩ := hstarts.exists_cons
  have ht := List.mem_singleton.mp hx
  have hspan : input.start = x.span.start := by simp only [Input.start, hrest]
  rw [just_eq hrest ht]
  exact .read (h.step hrest (hspan ▸ Keyword.eq_lexeme ht ▸ Step.keyword k x.span)) le_rfl

/-! ## One of two symbols -/

section Either

variable {s s' : Symbol} {a a' : α}

theorem refuses_either : (choice [symbol s a, symbol s' a']).Refuses [.symbol s, .symbol s'] :=
  ((refuses_just _).map _).orElse ((refuses_just _).map _)

/-- **One of two symbols**, each as what it stands for. -/
theorem either_read (next : α → Phase) (hne : s ≠ s')
    (h : Stands all done phase (.symbol s :: .symbol s' :: todo) input r)
    (hstarts : Starts [.symbol s, .symbol s'] input.rest)
    (hstep : ∀ span, Step phase (s.lexeme span) (.on (next a)))
    (hstep' : ∀ span, Step phase (s'.lexeme span) (.on (next a'))) :
    Outcome (IsError all) (input.place + 1) [] (fun b => Fresh all done (next b))
      (choice [symbol s a, symbol s' a'] input r) := by
  refine Outcome.orElse ((refuses_just _).map _) ((refuses_just _).map _)
    (by simpa [Apart] using hne) hstarts ?_ ?_
  · intro hs
    exact (just_read h hs hstep).map fun _ _ _ _ hread => hread
  · intro hs hs'
    exact (just_read (Stands.missAll [.symbol s] h hs) hs' hstep').map fun _ _ _ _ hread => hread

end Either

end Parser

/-! ## What ends a phrase -/

/-- A symbol is all that may follow, and makes a move. -/
def Ends (all : List Lexeme) (done : List Statement) (s : Symbol) (move : Span → Move)
    (input : Input) (r : Record) : Prop :=
  ∃ phase, Stands all done phase [.symbol s] input r
    ∧ ∀ span, Step phase (s.lexeme span) (move span)

/-- The closing symbol of a list or of parentheses leads on to the next phase; without it the text
    fails. -/
theorem Ends.read_on {s : Symbol} (next : Nat → Phase)
    (h : Ends all done s (fun span => .on (next span.stop)) input r) (hleast : least ≤ input.place) :
    Outcome (IsError all) least []
      (fun _ input' r' => Fresh all done (next input'.stop) input' r')
      (Parser.just (.symbol s) input r) := by
  obtain ⟨phase, hstands, hstep⟩ := h
  exact (Parser.refuses_just (.symbol s)).required hstands hleast fun hstarts =>
    Parser.just_read hstands hstarts hstep

namespace Parser

/-! ## Lists -/

/-- A comma or a symbol may follow the items so far: one leads to another item, and the other ends
    the list. -/
def Delimited (all : List Lexeme) (done : List Statement) (more : List α → Phase) (close : Symbol)
    (move : List α → Span → Move) (items : List α) (input : Input) (r : Record) : Prop :=
  ∃ phase, Stands all done phase [.symbol .comma, .symbol close] input r
    ∧ (∀ span, Step phase (Symbol.comma.lexeme span) (.on (more items)))
    ∧ ∀ span, Step phase (close.lexeme span) (move items span)

section Lists

variable {item : Parser α} {more : List α → Phase} {close : Symbol}
  {move : List α → Span → Move}

theorem refuses_separatedBy1 (hitem : item.Refuses first) :
    (item.separatedBy1 (just (.symbol .comma))).Refuses first :=
  hitem.bind _

/-- **A list with an item or more**, each of which starts with a name. -/
theorem separatedBy1_read (hitem : item.Refuses [.ident])
    (hahead : Apart ahead [.symbol .comma])
    (hexpected : ∀ items, (more items).expected = [.terminal .ident])
    (hmore : ∀ items input r, Fresh all done (more items) input r → Starts [.ident] input.rest →
      Outcome (IsError all) (input.place + 1) ahead
        (fun i => Delimited all done more close move (items ++ [i])) (item input r))
    (hfirst : Outcome (IsError all) (input.place + 1) ahead
      (fun i => Delimited all done more close move [i]) (item input r)) :
    Outcome (IsError all) (input.place + 1) (.symbol .comma :: ahead)
      (fun items => Ends all done close (move items))
      (item.separatedBy1 (just (.symbol .comma)) input r) := by
  have hround : (just (.symbol .comma)).ignoreThen item |>.Refuses [.symbol .comma] :=
    (refuses_just _).bind _
  refine hfirst.bind ?_ (fun i => (hround.still_repeated hahead).map _) (List.subset_cons_self _ _)
  intro i input' r' hplace hdelimited
  have hrest : Outcome (IsError all) (input.place + 1) (.symbol .comma :: ahead)
      (fun items => Ends all done close (move (i :: items)))
      (((just (.symbol .comma)).ignoreThen item).repeated input' r') := by
    -- the invariant: after every item a comma or the closing token takes a step
    refine Outcome.repeated (fun items => Delimited all done more close move (i :: items))
      hround hahead ?_ ?_ hplace hdelimited
    · rintro items input r ⟨phase, hstands, _, hclose⟩ hstarts
      exact ⟨phase, Stands.missAll [.symbol .comma] hstands hstarts, hclose⟩
    · rintro items input r ⟨phase, hstands, hcomma, _⟩ hstarts
      refine (just_read hstands hstarts hcomma).bind ?_ (fun _ => still_nil item)
        (List.nil_subset _)
      intro _ input' r' hplace hfresh
      have htodo : Stands all done (more (i :: items)) [.terminal .ident] input' r' :=
        hexpected (i :: items) ▸ hfresh
      refine hitem.required htodo hplace fun hident => ?_
      refine (hmore (i :: items) input' r' hfresh hident).mono le_rfl (List.Subset.refl _) ?_
      rintro j input'' r'' hplace' hread
      obtain ⟨phase', hstands', _⟩ := id hread
      -- a round has read its comma at least, so that less is left than before it
      exact ⟨hread, hstands.length_lt hstands' (by omega)⟩
  exact hrest.map fun _ _ _ _ hread => hread

/-- **A list that may be empty**, where either an item or the closing token must come. -/
theorem separatedBy_required (hitem : item.Refuses [.ident])
    (hahead : Apart ahead [.symbol .comma])
    (hexpected : ∀ items, (more items).expected = [.terminal .ident])
    (hmore : ∀ items input r, Fresh all done (more items) input r → Starts [.ident] input.rest →
      Outcome (IsError all) (input.place + 1) ahead
        (fun i => Delimited all done more close move (items ++ [i])) (item input r))
    (h : Stands all done phase [.terminal .ident, .symbol close] input r)
    (hleast : least ≤ input.place)
    (hfirst : Starts [.ident] input.rest → Outcome (IsError all) (input.place + 1) ahead
      (fun i => Delimited all done more close move [i]) (item input r))
    (hclose : ∀ span, Step phase (close.lexeme span) (move [] span)) :
    Outcome (IsError all) least (.ident :: .symbol .comma :: ahead)
      (fun items => Ends all done close (move items))
      (item.separatedBy (just (.symbol .comma)) input r) := by
  refine Outcome.orElse_succeed (refuses_separatedBy1 hitem) hleast ?_ ?_
  · intro hstarts
    exact ⟨phase, Stands.missAll [.ident] h hstarts, hclose⟩
  · intro hstarts
    exact separatedBy1_read hitem hahead hexpected hmore (hfirst hstarts)

end Lists

/-! ## Parentheses -/

theorem refuses_inParens (p : Parser α) : (inParens p).Refuses [.symbol .openParen] :=
  (refuses_just _).bind _

/-- **Something in parentheses.** If the inside is given up before the closing parenthesis, the text
    fails for good. -/
theorem inParens_read {p : Parser α} {inner : Phase} (next : α → Nat → Phase)
    (h : Stands all done phase todo input r) (hstarts : Starts [.symbol .openParen] input.rest)
    (hopen : ∀ span, Step phase (Symbol.openParen.lexeme span) (.on inner))
    (hahead : Apart ahead [.symbol .closeParen])
    (hinner : ∀ input' r', input.place + 1 ≤ input'.place → Fresh all done inner input' r' →
      Outcome (IsError all) (input.place + 1) ahead
        (fun a => Ends all done .closeParen fun span => .on (next a span.stop)) (p input' r')) :
    Outcome (IsError all) (input.place + 1) []
      (fun a input' r' => Fresh all done (next a input'.stop) input' r') (inParens p input r) := by
  refine (just_read h hstarts hopen).bind ?_ (fun _ => still_nil _) (List.Subset.refl _)
  intro _ input' r' hplace hfresh
  refine (hinner input' r' hplace hfresh).bind_of_refuses ?_ (fun a => (refuses_just _).map _) hahead
  intro a input'' r'' hplace' hends
  exact (Ends.read_on (next a) hends hplace').map fun _ _ _ _ hread => hread

/-! ## Points -/

section Points

variable {site : Site} {g : Ident}

/-- Some indices of a point were read, and a comma or the parenthesis follows. -/
abbrev Indexed (all : List Lexeme) (done : List Statement) (site : Site) (g : Ident)
    (is : List Index) (input : Input) (r : Record) : Prop :=
  Delimited all done (fun is => .point site g (.separated is)) .closeParen
    (fun is span => .on (closePoint site g is span.stop)) is input r

theorem refuses_sign : sign.Refuses [.symbol .plus, .symbol .minus] := refuses_either

theorem refuses_index : index.Refuses [.ident] := (refuses_ident.bind _).mapWith _

/-- **An index**, which may be given up at its sign. -/
theorem index_read {is : List Index} (h : Stands all done phase todo input r)
    (hstarts : Starts [.ident] input.rest)
    (hstep : ∀ d : Ident, Step phase d.lexeme (.on (.point site g (.index is d)))) :
    Outcome (IsError all) (input.place + 1) [.symbol .plus, .symbol .minus]
      (fun i => Indexed all done site g (is ++ [i])) (index input r) := by
  refine Outcome.mapWith (Outcome.bind (ident_read h hstarts hstep) ?_ (fun _ => still_nil _)
    (List.nil_subset _)) fun _ _ _ _ hread => hread
  rintro d input₁ r₁ hplace ⟨hdim, hspan⟩
  refine Outcome.map (Outcome.orElse_succeed (refuses_sign.bind _ |>.map _) hplace ?_ ?_)
    fun _ _ _ _ hread => hread
  · intro hsign
    -- no offset: the signs were tried, and the name alone is the index
    dsimp only
    rw [← hspan]
    exact ⟨_, Stands.missAll [.symbol .plus, .symbol .minus] hdim hsign,
      Step.indexComma site g is d, Step.indexClose site g is d⟩
  · intro hsign
    have hsigned := either_read (fun negative => .point site g (.signed is d negative))
      (by simp) hdim hsign (Step.indexSign site g is d .plus) (Step.indexSign site g is d .minus)
    refine Outcome.map (Outcome.bind hsigned ?_ (fun _ => still_nil _) (List.Subset.refl _))
      fun _ _ _ _ hread => hread
    intro negative input₂ r₂ hplace₂ hfresh
    refine Outcome.map (refuses_number.required hfresh hplace₂ fun hnumber =>
      number_read hfresh hnumber (Step.indexOffset site g is d negative)) ?_
    rintro ⟨v, span⟩ input₃ r₃ _ ⟨hread, hstop⟩
    have hindex : Index.shifted d negative v span.stop
        = ⟨d, if negative then v.neg else v, ⟨input.start, input₃.stop⟩⟩ := by
      rw [Index.shifted, hspan, hstop]
    dsimp only
    rw [← hindex]
    exact ⟨_, hread, Step.pointComma site g _, Step.pointClose site g _⟩

theorem refuses_point : point.Refuses [.ident] := (refuses_ident.bind _).mapWith _

/-- **A point**: its grid's name, and then indices in parentheses, none or several. -/
theorem point_read (site : Site) (h : Stands all done phase todo input r)
    (hstarts : Starts [.ident] input.rest)
    (hstep : ∀ g : Ident, Step phase g.lexeme (.on (.point site g .named))) :
    Outcome (IsError all) (input.place + 1) []
      (fun p input' r' => Fresh all done (site.close p) input' r' ∧ p.span.start = input.start)
      (point input r) := by
  refine Outcome.mapWith (Outcome.bind (ident_read h hstarts hstep) ?_ (fun _ => still_nil _)
    (List.Subset.refl _)) fun _ _ _ _ hread => hread
  rintro g input₁ r₁ hplace ⟨hnamed, hspan⟩
  have hlist : ∀ input₂ r₂, input₁.place + 1 ≤ input₂.place →
      Fresh all done (.point site g .opened) input₂ r₂ →
      Outcome (IsError all) (input₁.place + 1) [.ident, .symbol .comma, .symbol .plus, .symbol .minus]
        (fun is => Ends all done .closeParen fun span => .on (closePoint site g is span.stop))
        (index.separatedBy (just (.symbol .comma)) input₂ r₂) := by
    intro input₂ r₂ hplace₂ hopened
    have hexpected : ∀ is, (Phase.point site g (.separated is)).expected = [.terminal .ident] :=
      fun _ => rfl
    refine separatedBy_required refuses_index (by decide) hexpected ?_ hopened hplace₂ ?_
      (Step.pointEmpty site g)
    · intro is input r hmore hident
      exact index_read hmore hident (Step.pointDim site g is)
    · intro hident
      exact index_read hopened hident (Step.pointFirst site g)
  refine Outcome.map ((refuses_inParens _).required hnamed hplace fun hopen =>
    inParens_read (closePoint site g) hnamed hopen (Step.pointOpen site g) (by decide) hlist) ?_
  intro is input₂ r₂ _ hread
  rw [closePoint, hspan] at hread
  exact ⟨hread, rfl⟩

end Points

/-! ## Expressions -/

/-- The operators, at which an expression may be given up. -/
def operators : List Terminal := [.symbol .star, .symbol .slash, .symbol .plus, .symbol .minus]

/-- What may follow an expression, with the levels around it. -/
def closing (outer : List Level) : Expectation :=
  .symbol (if outer.isEmpty then .semicolon else .closeParen)

/-- The value of an expression was read, and only what closes its level may follow. -/
def Valued (all : List Lexeme) (done : List Statement) (lhs : Point) (outer : List Level)
    (value : Expr) (input : Input) (r : Record) : Prop :=
  ∃ level last, Stands all done (.operator ⟨lhs, level, outer⟩ last) [closing outer] input r
    ∧ level.sumWith last = value

/-- **Expressions are read from a place on**: from there on the parser comes to the value of what
    stands there, whatever is around it. It may be given up at an operator. -/
def ReadsExpr (all : List Lexeme) (done : List Statement) (p : Parser Expr) (place : Nat) : Prop :=
  ∀ lhs outer input r, place ≤ input.place →
    Fresh all done (.operand ⟨lhs, .empty, outer⟩) input r →
    Outcome (IsError all) input.place operators (Valued all done lhs outer) (p input r)

section Expressions

variable {inner : Parser Expr} {place : Nat}

theorem refuses_atom : (atom inner).Refuses [.number, .ident, .symbol .openParen] :=
  (refuses_number.map _).orElse ((refuses_point.map _).orElse (refuses_inParens inner))

/-- **An operand without its signs**: a number, a point, or an expression in parentheses, tried in
    this order. -/
theorem atom_required {e : OpenEquation} (hinner : ReadsExpr all done inner (place + 1))
    (h : Stands all done (.operand e) [.terminal .number, .terminal .ident, .symbol .openParen]
      input r) (hplace : place ≤ input.place) (hleast : least ≤ input.place) :
    Outcome (IsError all) least [] (fun v => Fresh all done (e.withOperand v))
      (atom inner input r) := by
  refine refuses_atom.required h hleast fun hstarts => ?_
  refine Outcome.orElse (refuses_number.map _)
    ((refuses_point.map _).orElse (refuses_inParens inner)) (by decide) hstarts ?_ ?_
  · intro hnumber
    exact (number_read h hnumber (Step.number e)).map fun _ _ _ _ hread => hread.1
  · intro hnumber hstarts
    have h := Stands.missAll [.number] h hnumber
    refine Outcome.orElse (refuses_point.map _) (refuses_inParens inner) (by decide) hstarts ?_ ?_
    · intro hpoint
      exact (point_read (.operand e) h hpoint (Step.point e)).map fun _ _ _ _ hread => hread.1
    · intro hpoint hopen
      have h := Stands.missAll [.ident] h hpoint
      have hnested : ∀ input' r', input.place + 1 ≤ input'.place →
          Fresh all done (.operand e.nested) input' r' →
          Outcome (IsError all) (input.place + 1) operators
            (fun v => Ends all done .closeParen fun _ => .on (e.withOperand v))
            (inner input' r') := by
        intro input' r' hplace' hfresh
        refine (hinner e.lhs (e.level :: e.outer) input' r' (by omega) hfresh).mono hplace'
          (List.Subset.refl _) ?_
        rintro v _ _ _ ⟨level, last, hstands, rfl⟩
        exact ⟨_, hstands, Step.closeParen e.lhs level e.level e.outer last⟩
      exact inParens_read (fun v _ => e.withOperand v) h hopen (Step.openParen e) (by decide) hnested

/-- The equation after some minus signs before an operand. -/
def signed (e : OpenEquation) (signs : List Span) : OpenEquation :=
  { e with level := { e.level with signs := signs.reverse } }

/-- **An operand** with the signs before it, which are put around it from the innermost outwards. -/
theorem unary_required {lhs : Point} {sum product : Option Pending} {outer : List Level}
    (hinner : ReadsExpr all done inner (place + 1))
    (h : Fresh all done (.operand ⟨lhs, ⟨sum, product, []⟩, outer⟩) input r)
    (hplace : place ≤ input.place) :
    Outcome (IsError all) input.place []
      (fun v => Fresh all done (.operator ⟨lhs, ⟨sum, none, []⟩, outer⟩ (complete product v)))
      (unary inner input r) := by
  -- the phase gathers signs as they come, the parser in a list that it folds from the right
  set e : OpenEquation := ⟨lhs, ⟨sum, product, []⟩, outer⟩ with he
  have hsigns : Outcome (IsError all) input.place [.symbol .minus]
      (fun signs => Stands all done (.operand (signed e signs))
        [.terminal .number, .terminal .ident, .symbol .openParen])
      (((just (.symbol .minus)).mapWith fun _ span => span).repeated input r) := by
    refine Outcome.repeated (fun signs => Fresh all done (.operand (signed e signs)))
      ((refuses_just _).mapWith _) (by decide) ?_ ?_ le_rfl h
    · intro signs input r hfresh hminus
      exact Stands.missAll [.symbol .minus] hfresh hminus
    · intro signs input r hfresh hminus
      refine Outcome.mapWith (just_read hfresh hminus (Step.sign _)) ?_
      intro _ input' r' hplace' hread
      have hmore : (signed e signs).withSign ⟨input.start, input'.stop⟩
          = signed e (signs ++ [⟨input.start, input'.stop⟩]) := by
        rw [OpenEquation.withSign, signed, signed, List.reverse_append]
        rfl
      rw [hmore] at hread
      exact ⟨hread, hfresh.length_lt hread hplace'⟩
  refine Outcome.bind_of_refuses hsigns ?_ (fun _ => refuses_atom.map _) (by decide)
  intro signs input' r' hplace' hstands
  refine Outcome.map (atom_required hinner hstands (hplace.trans hplace') hplace') ?_
  intro v _ _ _ hread
  have hvalue : (signed e signs).level.productWith v
      = complete product (signs.foldr (fun minus operand => operand.under minus) v) := by
    rw [Level.productWith, signed, List.foldl_reverse]
  rw [OpenEquation.withOperand, hvalue] at hread
  exact hread

/-- **Operands with operators between.** `Loop` holds after every operand, with the value so far: one
    of two operators may follow, and then another operand. -/
theorem operation_required (done : List Statement) {s s' : Symbol} {op op' : Operator}
    {operand : Parser Expr} {Loop Read : Expr → Input → Record → Prop} (hne : s ≠ s')
    (hahead : Apart ahead [.symbol s, .symbol s'])
    (hfirst : Outcome (IsError all) input.place ahead Loop (operand input r))
    (hround : ∀ v input' r', input.place ≤ input'.place → Loop v input' r' →
      ∃ phase todo, ∃ next : Operator → Phase,
        Stands all done phase (.symbol s :: .symbol s' :: todo) input' r'
        ∧ (∀ span, Step phase (s.lexeme span) (.on (next op)))
        ∧ (∀ span, Step phase (s'.lexeme span) (.on (next op')))
        ∧ ∀ o input'' r'', input.place ≤ input''.place → Fresh all done (next o) input'' r'' →
          Outcome (IsError all) input''.place ahead (fun u => Loop (v.join o u))
            (operand input'' r''))
    (hend : ∀ v input' r', Loop v input' r' → ¬ Starts [.symbol s, .symbol s'] input'.rest →
      Read v input' (r'.missAll input'.place [.symbol s, .symbol s'])) :
    Outcome (IsError all) input.place (.symbol s :: .symbol s' :: ahead) Read
      (operation (choice [symbol s op, symbol s' op']) operand input r) := by
  have hrefuses : ((choice [symbol s op, symbol s' op']).andThen operand).Refuses
      [.symbol s, .symbol s'] := refuses_either.bind _
  refine hfirst.bind ?_ (fun _ => (hrefuses.still_repeated hahead).map _)
    (List.subset_append_right [Terminal.symbol s, Terminal.symbol s'] ahead)
  intro v input' r' hplace hloop
  have hrest : Outcome (IsError all) input.place (.symbol s :: .symbol s' :: ahead)
      (fun bs => Read (bs.foldl Expr.joined v))
      (((choice [symbol s op, symbol s' op']).andThen operand).repeated input' r') := by
    refine Outcome.repeated (fun bs input' r' => input.place ≤ input'.place
        ∧ Loop (bs.foldl Expr.joined v) input' r')
      hrefuses hahead ?_ ?_ hplace ⟨hplace, hloop⟩
    · rintro bs input' r' ⟨_, hloop⟩ hstarts
      exact hend _ input' r' hloop hstarts
    · rintro bs input' r' ⟨hplace, hloop⟩ hstarts
      obtain ⟨phase, todo, next, hstands, hstep, hstep', hoperand⟩ := hround _ _ _ hplace hloop
      refine (either_read next hne hstands hstarts hstep hstep').bind ?_ (fun _ => still_nil _)
        (List.nil_subset _)
      intro o input'' r'' hplace'' hfresh
      refine Outcome.map ((hoperand o input'' r'' (by omega) hfresh).of_le hplace'') ?_
      intro u input₃ r₃ hplace₃ hread
      have hnext : Loop ((bs ++ [(o, u)]).foldl Expr.joined v) input₃ r₃ := by
        rw [List.foldl_append]
        exact hread
      have hle : input.place ≤ input₃.place := by omega
      -- that the next round can start tells where the parser stands after this one
      obtain ⟨_, _, _, hstands₃, _⟩ := hround _ _ _ hle hnext
      exact ⟨⟨hle, hnext⟩, hstands.length_lt hstands₃ hplace₃⟩
  exact hrest.map fun _ _ _ _ hread => hread

variable {lhs : Point} {outer : List Level}

/-- **A product**: operands with `*` or `/` between, grouped to the left. -/
theorem product_required {sum : Option Pending} (hinner : ReadsExpr all done inner (place + 1))
    (h : Fresh all done (.operand ⟨lhs, ⟨sum, none, []⟩, outer⟩) input r)
    (hplace : place ≤ input.place) :
    Outcome (IsError all) input.place [.symbol .star, .symbol .slash]
      (fun v => Stands all done (.operator ⟨lhs, ⟨sum, none, []⟩, outer⟩ v)
        [.symbol .plus, .symbol .minus, closing outer])
      (product inner input r) := by
  refine operation_required done (by simp) (by decide) (unary_required hinner h hplace) ?_ ?_
  · intro v input' r' hplace' hfresh
    refine ⟨_, _, fun o => .operand ⟨lhs, ⟨sum, some ⟨v, o⟩, []⟩, outer⟩, hfresh,
      Step.factor _ v .star, Step.factor _ v .slash, ?_⟩
    intro o input'' r'' hplace'' hoperand
    exact unary_required hinner hoperand (hplace.trans hplace'')
  · intro v input' r' hfresh hstarts
    exact Stands.missAll [.symbol .star, .symbol .slash] hfresh hstarts

/-- **A sum**, given how the expressions inside it are read. -/
theorem readsExpr_sum (hinner : ReadsExpr all done inner (place + 1)) :
    ReadsExpr all done (operation sumOperator (product inner)) place := by
  intro lhs outer input r hplace h
  -- the last product is kept apart from what it will be added to
  let Loop (v : Expr) (input : Input) (r : Record) : Prop :=
    ∃ sum last, Stands all done (.operator ⟨lhs, ⟨sum, none, []⟩, outer⟩ last)
      [.symbol .plus, .symbol .minus, closing outer] input r ∧ complete sum last = v
  have hfirst : Outcome (IsError all) input.place [.symbol .star, .symbol .slash] Loop
      (product inner input r) :=
    (product_required hinner h hplace).mono le_rfl (List.Subset.refl _)
      fun v _ _ _ hstands => ⟨none, v, hstands, rfl⟩
  refine Outcome.mono (operation_required done (by simp) (by decide) hfirst ?_ ?_) le_rfl
    (by decide) fun v _ _ _ hread => hread
  · rintro v input' r' hplace' ⟨sum, last, hstands, rfl⟩
    refine ⟨_, _, fun o => .operand ⟨lhs, ⟨some ⟨complete sum last, o⟩, none, []⟩, outer⟩, hstands,
      Step.term _ last .plus, Step.term _ last .minus, ?_⟩
    intro o input'' r'' hplace'' hoperand
    exact (product_required hinner hoperand (hplace.trans hplace'')).mono le_rfl
      (List.Subset.refl _) fun u _ _ _ hread => ⟨_, u, hread, rfl⟩
  · rintro v input' r' ⟨sum, last, hstands, rfl⟩ hstarts
    exact ⟨_, last, Stands.missAll [.symbol .plus, .symbol .minus] hstands hstarts, rfl⟩

/-- **Expressions.** The depth of the recursion is never used up, since there is a parenthesis for
    each level of it. -/
theorem readsExpr_recursiveUpTo (n : Nat) : ∀ place, all.length < place + n →
    ReadsExpr all done (recursiveUpTo (fun expr => operation sumOperator (product expr)) n) place := by
  induction n with
  | zero =>
    intro place hlength lhs outer input r hplace h
    exact absurd h.place (by omega)
  | succ n ih =>
    intro place hlength
    exact readsExpr_sum (ih (place + 1) (by omega))

/-- **An expression**, with the fuel that the grammar gives it: one more than there are tokens
    left. -/
theorem readsExpr_expr : ReadsExpr all done expr 0 := by
  intro lhs outer input r _ h
  have hlength := h.length_rest
  exact readsExpr_recursiveUpTo (input.rest.length + 1) input.place (by omega) lhs outer input r
    le_rfl h

end Expressions

/-! ## Statements -/

/-- A clause was read, and its semicolon ends the statement. -/
abbrev Claused (all : List Lexeme) (done : List Statement) (start : Nat) (c : Clause)
    (input : Input) (r : Record) : Prop :=
  Ends all done .semicolon (fun span => .done ⟨c, ⟨start, span.stop⟩⟩) input r

/-- After the last token of a clause a semicolon is all that may follow. -/
theorem claused_closing {start : Nat} {c : Clause} (h : Fresh all done (.closing start c) input r) :
    Claused all done start c input r :=
  ⟨_, h, Step.semicolon start c⟩

theorem refuses_headed (k : Keyword) : (headed k).Refuses [.keyword k] := (refuses_just _).bind _

/-- **A keyword and a name**, with which all statements but equations begin. -/
theorem headed_read {k : Keyword} (h : Stands all done .idle todo input r)
    (hstarts : Starts [.keyword k] input.rest) :
    Outcome (IsError all) (input.place + 1) []
      (fun n => Fresh all done (afterHeader k input.start n)) (headed k input r) := by
  refine (keyword_read h hstarts).bind ?_ (fun _ => still_nil _) (List.Subset.refl _)
  intro _ input' r' hplace hheader
  refine refuses_ident.required hheader hplace fun hident => ?_
  exact (ident_read hheader hident (Step.name k input.start)).mono le_rfl (List.Subset.refl _)
    fun _ _ _ _ hread => hread.1

/-- A symbol without an alternative: it comes, or the text fails here. -/
theorem just_required {s : Symbol} {next : Phase} (h : Stands all done phase [.symbol s] input r)
    (hleast : least ≤ input.place) (hstep : ∀ span, Step phase (s.lexeme span) (.on next)) :
    Outcome (IsError all) least [] (fun _ => Fresh all done next) (just (.symbol s) input r) :=
  Ends.read_on (fun _ => next) ⟨phase, h, hstep⟩ hleast

theorem refuses_setting : setting.Refuses [.keyword .set] :=
  (((refuses_headed .set).bind _).bind _).map _

/-- **A setting**: its name, the equals sign and a number. -/
theorem setting_read (h : Stands all done .idle todo input r)
    (hstarts : Starts [.keyword .set] input.rest) :
    Outcome (IsError all) (input.place + 1) [] (Claused all done input.start)
      (setting input r) := by
  have hname : Outcome (IsError all) (input.place + 1) []
      (fun n => Fresh all done (.settingValue input.start n))
      ((headed .set).thenIgnore (just (.symbol .equals)) input r) := by
    refine (headed_read h hstarts).bind ?_ (fun _ => still_nil _) (List.Subset.refl _)
    intro n input' r' hplace hset
    exact (just_required hset hplace (Step.setEquals input.start n)).map
      fun _ _ _ _ hread => hread
  refine Outcome.map (hname.bind ?_ (fun _ => still_nil _) (List.Subset.refl _))
    fun _ _ _ _ hread => hread
  intro n input' r' hplace hvalue
  refine Outcome.map (refuses_number.required hvalue hplace fun hnumber =>
    number_read hvalue hnumber (Step.setValue input.start n)) ?_
  intro v _ _ _ hread
  exact claused_closing hread.1

theorem refuses_domains : domains.Refuses [.keyword .domain] := ((refuses_just _).bind _).map _

/-- **A list of domain dimensions**, one or more, with no parentheses around it. -/
theorem domains_read (h : Stands all done .idle todo input r)
    (hstarts : Starts [.keyword .domain] input.rest) :
    Outcome (IsError all) (input.place + 1) [.symbol .comma] (Claused all done input.start)
      (domains input r) := by
  refine Outcome.map ((keyword_read h hstarts).bind ?_ (fun _ => still_nil _) (List.nil_subset _))
    fun _ _ _ _ hread => hread
  intro _ input' r' hplace hheader
  have hexpected : ∀ ns, (Phase.domainsMore input.start ns).expected = [.terminal .ident] :=
    fun _ => rfl
  have hdelimited : ∀ {ns input' r'}, Fresh all done (.domains input.start ns) input' r' →
      Delimited all done (.domainsMore input.start) .semicolon
        (fun ns span => .done ⟨.domain ns, ⟨input.start, span.stop⟩⟩) ns input' r' :=
    fun hfresh => ⟨_, hfresh, Step.domainComma input.start _, Step.domainEnd input.start _⟩
  refine (refuses_separatedBy1 refuses_ident).required hheader hplace fun hident => ?_
  refine separatedBy1_read refuses_ident (by decide) hexpected ?_ ?_
  · intro ns input r hmore hident
    exact (ident_read hmore hident (Step.domainName _ ns)).mono le_rfl (List.Subset.refl _)
      fun _ _ _ _ hread => hdelimited hread.1
  · exact (ident_read hheader hident (Step.name .domain _)).mono le_rfl (List.Subset.refl _)
      fun _ _ _ _ hread => hdelimited hread.1

theorem refuses_grid : grid.Refuses [.keyword .grid] := ((refuses_headed .grid).bind _).map _

/-- **A grid**: its name, and then its dimensions in parentheses, none or several. -/
theorem grid_read (h : Stands all done .idle todo input r)
    (hstarts : Starts [.keyword .grid] input.rest) :
    Outcome (IsError all) (input.place + 1) [] (Claused all done input.start) (grid input r) := by
  refine Outcome.map ((headed_read h hstarts).bind ?_ (fun _ => still_nil _) (List.Subset.refl _))
    fun _ _ _ _ hread => hread
  intro g input₁ r₁ hplace hnamed
  have hexpected : ∀ ds, (Phase.gridMore input.start g ds).expected = [.terminal .ident] :=
    fun _ => rfl
  have hdelimited : ∀ {ds input' r'}, Fresh all done (.gridDims input.start g ds) input' r' →
      Delimited all done (.gridMore input.start g) .closeParen
        (fun ds _ => .on (.closing input.start (.grid g ds))) ds input' r' :=
    fun hfresh => ⟨_, hfresh, Step.gridComma input.start g _, Step.gridClose input.start g _⟩
  have hlist : ∀ input₂ r₂, input₁.place + 1 ≤ input₂.place →
      Fresh all done (.gridOpened input.start g) input₂ r₂ →
      Outcome (IsError all) (input₁.place + 1) [.ident, .symbol .comma]
        (fun ds => Ends all done .closeParen fun _ => .on (.closing input.start (.grid g ds)))
        (ident.separatedBy (just (.symbol .comma)) input₂ r₂) := by
    intro input₂ r₂ hplace₂ hopened
    refine separatedBy_required refuses_ident (by decide) hexpected ?_ hopened hplace₂ ?_
      (Step.gridEmpty input.start g)
    · intro ds input r hmore hident
      exact (ident_read hmore hident (Step.gridDim _ g ds)).mono le_rfl (List.Subset.refl _)
        fun _ _ _ _ hread => hdelimited hread.1
    · intro hident
      exact (ident_read hopened hident (Step.gridFirst _ g)).mono le_rfl (List.Subset.refl _)
        fun _ _ _ _ hread => hdelimited hread.1
  refine Outcome.map ((refuses_inParens _).required hnamed hplace fun hopen =>
    inParens_read (fun ds _ => .closing input.start (.grid g ds)) hnamed hopen
      (Step.gridOpen input.start g) (by decide) hlist) ?_
  intro ds _ _ _ hread
  exact claused_closing hread

theorem refuses_equation : equation.Refuses [.ident] := ((refuses_point.bind _).bind _).map _

/-- **An equation**, which may be given up at an operator. -/
theorem equation_read (h : Stands all done .idle todo input r)
    (hstarts : Starts [.ident] input.rest) :
    Outcome (IsError all) (input.place + 1) operators (Claused all done input.start)
      (equation input r) := by
  have hlhs : Outcome (IsError all) (input.place + 1) []
      (fun p input' r' => Fresh all done (.operand ⟨p, .empty, []⟩) input' r'
        ∧ p.span.start = input.start)
      (point.thenIgnore (just (.symbol .equals)) input r) := by
    refine (point_read .target h hstarts Step.grid).bind ?_ (fun _ => still_nil _)
      (List.Subset.refl _)
    rintro p input' r' hplace ⟨htarget, hstart⟩
    exact (just_required htarget hplace (Step.equals p)).map
      fun _ _ _ _ hread => ⟨hread, hstart⟩
  refine Outcome.map (hlhs.bind ?_ (fun _ => still_nil _) (List.nil_subset _))
    fun _ _ _ _ hread => hread
  rintro p input' r' hplace ⟨hrhs, hstart⟩
  refine Outcome.map ((readsExpr_expr p [] input' r' (Nat.zero_le _) hrhs).of_le hplace) ?_
  rintro v _ _ _ ⟨level, last, hstands, rfl⟩
  rw [← hstart]
  exact ⟨_, hstands, Step.finish p level last⟩

/-- What a statement can start with. -/
def statementFirst : List Terminal := Keyword.all.map .keyword ++ [.ident]

theorem refuses_clause : clause.Refuses statementFirst :=
  ((refuses_headed .solution).map _).orElse (refuses_setting.orElse
    (((refuses_headed .step).map _).orElse (refuses_domains.orElse
      (refuses_grid.orElse refuses_equation))))

/-- What may follow a clause that was given up: a comma or an operator. -/
def clauseAhead : List Terminal := .symbol .comma :: operators

/-- **A clause.** No two alternatives start with the same token, so that the one tried is the right
    one. -/
theorem clause_read (h : Fresh all done .idle input r) (hstarts : Starts statementFirst input.rest) :
    Outcome (IsError all) (input.place + 1) clauseAhead (Claused all done input.start)
      (clause input r) := by
  have hread : ∀ {p : Parser Clause} {ahead r},
      Outcome (IsError all) (input.place + 1) ahead (Claused all done input.start) (p input r) →
      ahead ⊆ clauseAhead →
      Outcome (IsError all) (input.place + 1) clauseAhead (Claused all done input.start)
        (p input r) :=
    fun h hsub => h.mono le_rfl hsub fun _ _ _ _ hread => hread
  have hgrid := refuses_grid.orElse refuses_equation
  have hdomains := refuses_domains.orElse hgrid
  have hstep := ((refuses_headed .step).map Clause.step).orElse hdomains
  have hset := refuses_setting.orElse hstep
  -- one alternative after the other is tried, until the keyword is its own
  refine Outcome.orElse ((refuses_headed .solution).map _) hset (by decide) hstarts ?_ ?_
  · intro hkeyword
    refine hread ((headed_read h hkeyword).map ?_) (List.nil_subset _)
    exact fun _ _ _ _ hread => claused_closing hread
  intro hsolution hstarts
  have h := Stands.missAll [.keyword .solution] h hsolution
  refine Outcome.orElse refuses_setting hstep (by decide) hstarts ?_ ?_
  · intro hkeyword
    exact hread (setting_read h hkeyword) (List.nil_subset _)
  intro hsetting hstarts
  have h := Stands.missAll [.keyword .set] h hsetting
  refine Outcome.orElse ((refuses_headed .step).map _) hdomains (by decide) hstarts ?_ ?_
  · intro hkeyword
    refine hread ((headed_read h hkeyword).map ?_) (List.nil_subset _)
    exact fun _ _ _ _ hread => claused_closing hread
  intro hstep hstarts
  have h := Stands.missAll [.keyword .step] h hstep
  refine Outcome.orElse refuses_domains hgrid (by decide) hstarts ?_ ?_
  · intro hkeyword
    exact hread (domains_read h hkeyword) (by decide)
  intro hdomains hstarts
  have h := Stands.missAll [.keyword .domain] h hdomains
  refine Outcome.orElse refuses_grid refuses_equation (by decide) hstarts ?_ ?_
  · intro hkeyword
    exact hread (grid_read h hkeyword) (List.nil_subset _)
  intro hgrid hident
  have h := Stands.missAll [.keyword .grid] h hgrid
  exact hread (equation_read h hident) (by decide)

theorem refuses_statement : statement.Refuses statementFirst := (refuses_clause.bind _).mapWith _

/-- **A statement**: a clause and its semicolon, after which the next statement can begin. -/
theorem statement_read (h : Fresh all done .idle input r)
    (hstarts : Starts statementFirst input.rest) :
    Outcome (IsError all) (input.place + 1) []
      (fun s => Fresh all (done ++ [s]) .idle) (statement input r) := by
  have hread : Outcome (IsError all) (input.place + 1) []
      (fun c input' r' => Fresh all (done ++ [⟨c, ⟨input.start, input'.stop⟩⟩]) .idle input' r')
      (clause.thenIgnore (just (.symbol .semicolon)) input r) := by
    refine (clause_read h hstarts).bind_of_refuses ?_ (fun _ => (refuses_just _).map _) (by decide)
    rintro c input' r' hplace ⟨phase, hstands, hstep⟩
    refine Outcome.map ((refuses_just (.symbol .semicolon)).required hstands hplace fun hsemicolon => ?_)
      fun _ _ _ _ hread => hread
    obtain ⟨x, xs, hrest, hx⟩ := hsemicolon.exists_cons
    have ht := List.mem_singleton.mp hx
    rw [just_eq hrest ht]
    exact .read (hstands.finish hrest (Symbol.eq_lexeme ht ▸ hstep x.span)) le_rfl
  exact hread.mapWith fun _ _ _ _ hread => hread

end Parser

/-! ## Programs -/

open Stencil.Source.Parser (statementFirst refuses_statement statement_read)

/-- At the start of a text both stand together, with nothing read and everything still to be
    tried. -/
theorem fresh_start (xs : List Lexeme) : Fresh xs [] .idle ⟨0, 0, xs⟩ .start where
  arrives := fun _ => rfl
  rest := rfl
  place := Nat.zero_le _
  record := Record.missAll_of_new (nodup_expected .idle)
  tried := fun _ he hnot => absurd he hnot

theorem finish_of_nil (h : input.rest = []) (r : Record) :
    Parser.finish input r = (some ((), input), r) := by
  unfold Parser.finish
  rw [h]

/-- Where tokens are left, the end of the text was missed there. -/
theorem finish_of_ne_nil (h : input.rest ≠ []) (r : Record) :
    Parser.finish input r = (none, r.miss input.place .endOfInput) := by
  obtain ⟨x, xs, hrest⟩ := List.exists_cons_of_ne_nil h
  unfold Parser.finish
  rw [hrest]

/-- **The whole program**: it is read to its end, or the text fails at a place that both agree
    on. -/
theorem program_outcome (xs : List Lexeme) :
    (∃ ss input r, Parser.program ⟨0, 0, xs⟩ .start = (some (ss, input), r)
        ∧ parseFrom [] .idle xs = .ok ss)
      ∨ ∃ r, Parser.program ⟨0, 0, xs⟩ .start = (none, r) ∧ IsError xs r := by
  have hstatements : Outcome (IsError xs) 0 (statementFirst ++ [])
      (fun ss => Stands xs ss .idle [.endOfInput])
      (Parser.statement.repeated ⟨0, 0, xs⟩ .start) := by
    refine Outcome.repeated (fun ss => Fresh xs ss .idle) refuses_statement (by decide)
      ?_ ?_ (Nat.zero_le _) (fresh_start xs)
    · intro ss input r hfresh hstarts
      exact Stands.missAll statementFirst hfresh hstarts
    · intro ss input r hfresh hstarts
      exact (statement_read hfresh hstarts).mono le_rfl (List.Subset.refl _)
        fun s _ _ hplace hread => ⟨hread, hfresh.length_lt hread hplace⟩
  unfold Parser.program Parser.thenIgnore Parser.bind
  generalize Parser.statement.repeated ⟨0, 0, xs⟩ .start = out at hstatements
  cases hstatements with
  | @read ss input r hstands _ =>
    by_cases hrest : input.rest = []
    · left
      refine ⟨ss, input, r, ?_, ?_⟩
      · simp only [Parser.map, Parser.bind, finish_of_nil hrest]
        rfl
      · have hrun := hstands.arrives input.rest
        rw [hstands.rest, List.take_append_drop, ← hstands.rest, hrest] at hrun
        rw [hrun]
        rfl
    · right
      refine ⟨r.miss input.place .endOfInput, ?_, (hstands.miss hrest).isError.1⟩
      simp only [Parser.map, Parser.bind, finish_of_ne_nil hrest]
  | @failed r hfatal _ => exact Or.inr ⟨r, rfl, hfatal⟩
  | @doomed ss input r hfatal hlt hstarts _ =>
    -- some statement was given up, so that tokens are left, and the record is past them
    right
    have hrest : input.rest ≠ [] := by
      obtain ⟨x, ys, hcons, _⟩ := hstarts.exists_cons
      exact hcons ▸ List.cons_ne_nil x ys
    refine ⟨r, ?_, hfatal⟩
    simp only [Parser.map, Parser.bind, finish_of_ne_nil hrest, Record.miss_of_lt hlt]

/-- **The parser reads a token at a time**: it gives the program, or the error, that the phases
    lead to. -/
theorem parse_eq (length : Nat) (xs : List Lexeme) :
    parse length xs
      = (parseFrom [] .idle xs).map fun statements => ⟨statements, programSpan length xs⟩ := by
  unfold parse
  rcases program_outcome xs with ⟨ss, input, r, hprogram, hrun⟩ | ⟨r, hprogram, done, phase, hstuck⟩
  · rw [hprogram, hrun]
    rfl
  · rw [hprogram, hstuck.parseFrom_eq]
    rfl

/-- **A syntax error is the record that the parser is left with.** -/
theorem record_of_error {length : Nat} {xs : List Lexeme} {e : SyntaxError}
    (h : parse length xs = .error e) :
    ∃ r, Parser.program ⟨0, 0, xs⟩ .start = (none, r) ∧ e = r.error xs ∧ IsError xs r := by
  unfold parse at h
  rcases program_outcome xs with ⟨ss, input, r, hprogram, _⟩ | ⟨r, hprogram, hfatal⟩
  · rw [hprogram] at h
    exact absurd h (by simp)
  · rw [hprogram] at h
    injection h with h
    exact ⟨r, hprogram, h.symm, hfatal⟩

end Stencil.Source
