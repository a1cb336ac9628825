import Mathlib
import Stencil.Proofs.Acceptance
import Stencil.Proofs.Expectations

/-!
# The front end succeeds exactly if it is silent

The front end has four ways to find something: stray characters, a syntax error, elaboration, and a
width asked for from outside. What it gives in each case is said once: what is wrong with the text
is reported and nothing else is done (`compileSource_of_findings`), and a text with nothing wrong is
elaborated and given the width (`compileSource_of_program`).

The order in which findings come is part of the statement. Stray characters come in the order of the
text, a syntax error after all of them, whatever its place is; findings of elaboration come in the
order of the statements, and one about the width from outside comes last and alone, since it is
looked at only if nothing else was found.

A stray character does not keep the parser from going on with the other tokens, but it keeps the
program from being elaborated, even if what is left can be parsed.
-/

namespace Stencil.Source

/-! ## How findings are reported -/

/-- The report of a stray character. -/
def Stray.diagnostic (s : Stray) : Diagnostic :=
  ⟨.error, some "E0001", s.span, s.message, none, []⟩

/-- The report of a syntax error in a text of the given length. -/
def SyntaxError.diagnostic (length : Nat) (e : SyntaxError) : Diagnostic :=
  ⟨.error, some "E0001", e.span length, e.message, none, []⟩

/-- The report of a width asked for from outside: one if elaboration gave a draft to take it and it
    is neither four nor eight, and none otherwise. -/
def overrideDiagnostics (draft? : Option Draft) (elementBytes : Option Nat) (span : Span) :
    List Diagnostic :=
  match draft?, elementBytes with
  | some _, some bytes =>
    if bytes = 4 ∨ bytes = 8 then []
    else [⟨.error, some "E0103", span,
      "--element-bytes: " ++ (Error.unsupportedWidth bytes).message, none, []⟩]
  | _, _ => []

/-! ## Strays come in the order of the text -/

/-- A located piece starts at the given place or later, and its span has its length. -/
theorem span_of_mem_locate {q : Piece × Span} {ps : List Piece} :
    ∀ {start : Nat}, q ∈ locate start ps →
      start ≤ q.2.start ∧ q.2.stop = q.2.start + byteLength q.1.text := by
  induction ps with
  | nil => intro start h; exact absurd h List.not_mem_nil
  | cons p ps ih =>
    intro start h
    rcases List.mem_cons.mp h with rfl | h
    · exact ⟨Nat.le_refl _, rfl⟩
    · obtain ⟨hstart, hstop⟩ := ih h
      exact ⟨Nat.le_trans (Nat.le_add_right _ _) hstart, hstop⟩

theorem pairwise_locate (ps : List Piece) :
    ∀ start, (locate start ps).Pairwise fun q q' => q.2.stop ≤ q'.2.start := by
  induction ps with
  | nil => intro start; exact .nil
  | cons p ps ih =>
    intro start
    exact .cons (fun q hq => (span_of_mem_locate hq).1) (ih _)

/-- A stray character takes room. -/
theorem start_lt_of_stray? {q : Piece × Span} {s : Stray}
    (hspan : q.2.stop = q.2.start + byteLength q.1.text) (hs : stray? q = some s) :
    s.span = q.2 ∧ s.span.start < s.span.stop := by
  obtain ⟨p, span⟩ := q
  cases p with
  | blank text => exact absurd hs (by simp [stray?])
  | token t text => exact absurd hs (by simp [stray?])
  | stray c =>
    simp only [stray?, Option.some.injEq] at hs
    subst hs
    have hpos := c.utf8Size_pos
    simp only [Piece.text, byteLength, List.foldr_cons, List.foldr_nil] at hspan
    exact ⟨rfl, by simp only [hspan]; omega⟩

theorem pairwise_strays (source : String) :
    (scan source).strays.Pairwise fun s s' => s.span.start < s'.span.start := by
  refine List.pairwise_filterMap.mpr ?_
  refine (pairwise_locate (pieces source.toList) 0).imp_of_mem ?_
  intro q q' hq hq' hle s hs s' hs'
  obtain ⟨hspan, hlt⟩ := start_lt_of_stray? (span_of_mem_locate hq).2 hs
  obtain ⟨hspan', _⟩ := start_lt_of_stray? (span_of_mem_locate hq').2 hs'
  rw [hspan] at hlt ⊢
  rw [hspan']
  exact Nat.lt_of_lt_of_le hlt hle

/-! ## The two ways through the front end -/

section Ways

variable {source : String} {elementBytes : Option Nat} {log : Option Sink}

/-- What is wrong with the text is reported, and nothing else is done. -/
theorem compileSource_of_findings (h : (parseText source).findings ≠ []) :
    compileSource source elementBytes log = ⟨none, (parseText source).findings, log⟩ := by
  unfold compileSource
  dsimp only
  split
  · rename_i hnil
    exact absurd hnil h
  · rfl

theorem parseText_of_ok {program : Program}
    (h : parse source.utf8ByteSize (scan source).lexemes = .ok program) :
    parseText source = ⟨some program, (scan source).strays.map fun s => ⟨.stray s, s.span⟩⟩ := by
  simp only [parseText, h]

theorem parseText_of_error {e : SyntaxError}
    (h : parse source.utf8ByteSize (scan source).lexemes = .error e) :
    parseText source = ⟨none, ((scan source).strays.map fun s => ⟨.stray s, s.span⟩)
      ++ [⟨.unexpected e, e.span source.utf8ByteSize⟩]⟩ := by
  simp only [parseText, h]

/-- A text with nothing wrong is elaborated, and the width asked for replaces its own. -/
theorem compileSource_of_program {program : Program} (hstrays : (scan source).strays = [])
    (h : parse source.utf8ByteSize (scan source).lexemes = .ok program) :
    compileSource source elementBytes log
      = ((program.elaborate log).outcome).override program.span elementBytes := by
  unfold compileSource
  rw [parseText_of_ok h, hstrays]
  rfl

variable (source) in
/-- The strays and the syntax error, if there is one. -/
theorem diagnostics_parseText :
    ∃ tail, (parseText source).findings.map Finding.diagnostic
        = (scan source).strays.map Stray.diagnostic ++ tail
      ∧ (IsProgram (scan source).lexemes → tail = [])
      ∧ (¬ IsProgram (scan source).lexemes →
          ∃ e, parse source.utf8ByteSize (scan source).lexemes = .error e
            ∧ tail = [e.diagnostic source.utf8ByteSize]) := by
  have hstrays : ((scan source).strays.map fun s => (⟨.stray s, s.span⟩ : Finding)).map
      Finding.diagnostic = (scan source).strays.map Stray.diagnostic := by
    rw [List.map_map]
    rfl
  cases hparse : parse source.utf8ByteSize (scan source).lexemes with
  | ok program =>
    refine ⟨[], ?_, fun _ => rfl, fun hnot => absurd (derivation_of_ok hparse) hnot⟩
    rw [parseText_of_ok hparse, hstrays, List.append_nil]
  | error e =>
    refine ⟨[e.diagnostic source.utf8ByteSize], ?_, ?_, fun _ => ⟨e, rfl, rfl⟩⟩
    · rw [parseText_of_error hparse, List.map_append, hstrays]
      rfl
    · rintro ⟨p, hp⟩
      rw [← hp, parse_lexemes] at hparse
      exact absurd hparse (by simp)

theorem findings_parseText_ne_nil
    (h : (scan source).strays ≠ [] ∨ ¬ IsProgram (scan source).lexemes) :
    (parseText source).findings ≠ [] := by
  intro hnil
  obtain ⟨tail, htail, _, herror⟩ := diagnostics_parseText source
  rw [hnil, List.map_nil, eq_comm, List.append_eq_nil_iff, List.map_eq_nil_iff] at htail
  rcases h with hstrays | hnot
  · exact hstrays htail.1
  · obtain ⟨e, _, he⟩ := herror hnot
    rw [he] at htail
    exact absurd htail.2 (by simp)

variable (log) in
/-- The tokens of a program are elaborated if there is nothing else in the text. -/
theorem compileSource_of_isProgram (hstrays : (scan source).strays = [])
    (hprogram : IsProgram (scan source).lexemes) :
    ∃ program, parse source.utf8ByteSize (scan source).lexemes = .ok program
      ∧ ∀ elementBytes, compileSource source elementBytes log
        = ((program.elaborate log).outcome).override program.span elementBytes := by
  obtain ⟨p, hp⟩ := hprogram
  have hparse : parse source.utf8ByteSize (scan source).lexemes
      = .ok (p.tree source.utf8ByteSize) := by
    rw [← hp, parse_lexemes]
  exact ⟨_, hparse, fun _ => compileSource_of_program hstrays hparse⟩

end Ways

/-! ## A width asked for from outside -/

section Override

variable (σ : Scope) (span : Span)

/-- Elaboration gives a draft exactly if it finds nothing. -/
theorem findings_eq_nil_iff : σ.findings = [] ↔ σ.draft?.isSome = true := by
  rw [Option.isSome_iff_exists]
  constructor
  · intro h
    exact ⟨_, (Program.draft?_eq_some_iff σ σ.draft).mpr ⟨h, rfl⟩⟩
  · rintro ⟨d, hd⟩
    exact ((Program.draft?_eq_some_iff σ d).mp hd).1

theorem override_none (o : Outcome) : o.override span none = o := by
  unfold Outcome.override
  cases o.draft? with
  | none => rfl
  | some d => rfl

/-- Without a solution there is nothing to give a width to. -/
theorem solution?_override_eq_none {o : Outcome} (h : o.solution? = none)
    (elementBytes : Option Nat) : (o.override span elementBytes).solution? = none := by
  have hdraft : o.draft? = none := Option.map_eq_none_iff.mp h
  unfold Outcome.override
  rw [hdraft]
  exact h

/-- A supported width is given to the draft, if there is one. -/
theorem override_supported (w : Width) :
    (σ.outcome.override span (some w.bytes)).solution?
        = σ.outcome.solution?.map (fun s => { s with width := w })
      ∧ (σ.outcome.override span (some w.bytes)).findings = σ.findings := by
  have hw : Width.ofBytes? w.bytes = some w := (ofBytes?_eq_some_iff _ w).mpr rfl
  unfold Outcome.override Scope.outcome
  cases σ.draft? with
  | none => exact ⟨rfl, rfl⟩
  | some d =>
    have hset := (Draft.setElementBytes_eq_ok_iff (d := d) (u := ())).mpr ⟨w, hw, rfl⟩
    simp only [hset, and_true]
    rfl

/-- A width that is not supported is reported if there is a draft, which is then given up. -/
theorem override_unsupported {bytes : Nat} (h4 : bytes ≠ 4) (h8 : bytes ≠ 8) :
    (σ.outcome.override span (some bytes)).solution? = none
      ∧ (σ.outcome.override span (some bytes)).diagnostics
        = σ.outcome.diagnostics ++ overrideDiagnostics σ.draft? (some bytes) span := by
  have hw : Width.ofBytes? bytes = none := by
    simp only [Width.ofBytes?, if_neg h4, if_neg h8]
  unfold Outcome.override Scope.outcome
  cases σ.draft? with
  | none => exact ⟨rfl, (List.append_nil _).symm⟩
  | some d =>
    have hset : d.setElementBytes bytes = (.error (.unsupportedWidth bytes), d) := by
      simp only [Draft.setElementBytes, Edit.setElementBytes, hw]
      rfl
    simp only [hset]
    refine ⟨rfl, ?_⟩
    simp only [Outcome.diagnostics, List.map_append, overrideDiagnostics, h4, h8, or_self, if_false]
    rfl

/-- No width, or a supported one, is not reported. -/
theorem overrideDiagnostics_eq_nil {elementBytes : Option Nat}
    (h : ∀ bytes, elementBytes = some bytes → bytes = 4 ∨ bytes = 8) (draft? : Option Draft) :
    overrideDiagnostics draft? elementBytes span = [] := by
  cases draft? with
  | none => rfl
  | some d =>
    cases elementBytes with
    | none => rfl
    | some bytes => simp only [overrideDiagnostics, if_pos (h bytes rfl)]

/-- **What a width asked for from outside does**, whatever it is: it is reported if it must be, and
    there is a solution exactly if nothing was found and nothing is reported. -/
theorem override_outcome (elementBytes : Option Nat) :
    let o := σ.outcome.override span elementBytes
    o.diagnostics = σ.outcome.diagnostics ++ overrideDiagnostics σ.draft? elementBytes span
      ∧ (o.solution?.isSome = true ↔ o.diagnostics = []) := by
  have hsome : σ.outcome.solution?.isSome = true ↔ σ.outcome.diagnostics = [] := by
    simp only [Outcome.solution?, Outcome.diagnostics, Scope.outcome, Option.isSome_map,
      List.map_eq_nil_iff, findings_eq_nil_iff]
  intro o
  cases elementBytes with
  | none =>
    have ho : o = σ.outcome := override_none span σ.outcome
    rw [ho, overrideDiagnostics_eq_nil span (by simp), List.append_nil]
    exact ⟨rfl, hsome⟩
  | some bytes =>
    by_cases hwidth : bytes = 4 ∨ bytes = 8
    · obtain ⟨w, rfl⟩ : ∃ w : Width, w.bytes = bytes := by
        rcases hwidth with rfl | rfl
        · exact ⟨.single, rfl⟩
        · exact ⟨.double, rfl⟩
      obtain ⟨hsolution, hfindings⟩ := override_supported σ span w
      have hdiagnostics : o.diagnostics = σ.outcome.diagnostics :=
        congrArg (List.map Finding.diagnostic) hfindings
      rw [hdiagnostics, overrideDiagnostics_eq_nil span (by simpa using hwidth), List.append_nil,
        ← hsome]
      refine ⟨rfl, ?_⟩
      show (σ.outcome.override span (some w.bytes)).solution?.isSome = true ↔ _
      rw [hsolution, Option.isSome_map]
    · obtain ⟨h4, h8⟩ := not_or.mp hwidth
      obtain ⟨hsolution, hdiagnostics⟩ := override_unsupported σ span h4 h8
      refine ⟨hdiagnostics, ?_⟩
      show (σ.outcome.override span (some bytes)).solution?.isSome = true
        ↔ (σ.outcome.override span (some bytes)).diagnostics = []
      rw [hsolution, hdiagnostics, List.append_eq_nil_iff, ← hsome]
      -- a draft in which nothing was found is given up with a report
      cases hdraft : σ.draft? with
      | none => simp [Outcome.solution?, Scope.outcome, hdraft]
      | some d => simp [overrideDiagnostics, h4, h8]

end Override

/-- **The front end gives a solution exactly if it is silent.** This holds of every text and of every
    width asked for from outside.

    If the text has stray characters, or its tokens are no program, then each stray character is
    reported in the order of the text, after them the syntax error if the tokens are no program, and
    nothing is recorded. Otherwise the reports are those of elaboration, and one more if it succeeds
    and the width asked for is neither four nor eight. A supported width changes the width of the
    solution that there is without it, and no width makes a solution where there is none. -/
theorem solution_iff_silent (source : String) (elementBytes : Option Nat) (log : Option Sink) :
    let found := scan source
    let length := source.utf8ByteSize
    let o := compileSource source elementBytes log
    (o.solution?.isSome = true ↔ o.diagnostics = [])
    ∧ (found.strays ≠ [] ∨ ¬ IsProgram found.lexemes →
        o.log = log ∧ found.strays.Pairwise (fun s s' => s.span.start < s'.span.start)
        ∧ ∃ tail, o.diagnostics = found.strays.map Stray.diagnostic ++ tail
          ∧ (IsProgram found.lexemes → tail = [])
          ∧ (¬ IsProgram found.lexemes →
              ∃ e, parse length found.lexemes = .error e ∧ tail = [e.diagnostic length]))
    ∧ (found.strays = [] → IsProgram found.lexemes →
        ∃ program, parse length found.lexemes = .ok program
          ∧ o.diagnostics = (program.elaborate log).findings.map Finding.diagnostic
            ++ overrideDiagnostics (program.elaborate log).draft? elementBytes program.span)
    ∧ (∀ w : Width, elementBytes = some w.bytes →
        o.solution? = (compileSource source none log).solution?.map (fun s => { s with width := w })
          ∧ o.diagnostics = (compileSource source none log).diagnostics)
    ∧ ((compileSource source none log).solution? = none → o.solution? = none) := by
  intro found length o
  by_cases hwrong : found.strays ≠ [] ∨ ¬ IsProgram found.lexemes
  · have hfindings := findings_parseText_ne_nil hwrong
    -- the override is not reached, whatever it is
    have hcompile : ∀ bytes, compileSource source bytes log
        = ⟨none, (parseText source).findings, log⟩ := fun _ => compileSource_of_findings hfindings
    have ho : o = ⟨none, (parseText source).findings, log⟩ := hcompile elementBytes
    rw [ho, hcompile none]
    refine ⟨?_, ?_, ?_, fun w _ => ⟨rfl, rfl⟩, fun _ => rfl⟩
    · simpa [Outcome.solution?, Outcome.diagnostics] using hfindings
    · intro _
      exact ⟨rfl, pairwise_strays source, diagnostics_parseText source⟩
    · intro hstrays hprogram
      exact absurd hwrong (not_or.mpr ⟨not_not.mpr hstrays, not_not.mpr hprogram⟩)
  -- nothing is wrong with the text, so that elaboration and the override decide
  · obtain ⟨hstrays, hprogram⟩ := not_or.mp hwrong
    obtain ⟨program, hparse, hcompile⟩ :=
      compileSource_of_isProgram log (not_not.mp hstrays) (not_not.mp hprogram)
    have ho : o = _ := hcompile elementBytes
    have hplain := (hcompile none).trans (override_none _ _)
    obtain ⟨hdiagnostics, hsilent⟩ :=
      override_outcome (program.elaborate log) program.span elementBytes
    rw [ho, hplain]
    refine ⟨hsilent, fun h => absurd h hwrong, fun _ _ => ⟨program, hparse, hdiagnostics⟩, ?_,
      fun hnone => solution?_override_eq_none _ hnone elementBytes⟩
    rintro w rfl
    obtain ⟨hsolution, hfindings⟩ := override_supported _ _ w
    exact ⟨hsolution, congrArg (List.map Finding.diagnostic) hfindings⟩

/-- Two stray characters and a syntax error; widths of three and of eight bytes for a text that is
    fine; one of eight for a text without a solution; and one of eight for a text that elaboration
    rejects, since a dimension of its grid was never declared. -/
theorem solution_iff_silent_fourTexts :
    (∃ tail, (compileSource "step $ é;" none none).diagnostics
        = (scan "step $ é;").strays.map Stray.diagnostic ++ tail ∧ tail.length = 1)
    ∧ (∃ program, parse 19 (scan "solution s; step t;").lexemes = .ok program
        ∧ (compileSource "solution s; step t;" (some 3) none).diagnostics
          = (program.elaborate none).findings.map Finding.diagnostic
            ++ overrideDiagnostics (program.elaborate none).draft? (some 3) program.span)
    ∧ (compileSource "solution s; step t;" (some 8) none).solution?
        = (compileSource "solution s; step t;" none none).solution?.map
            (fun s => { s with width := .double })
    ∧ (compileSource "step t;" (some 8) none).solution? = none
    ∧ (let o := compileSource "solution s; step t; grid u(t, x);" (some 8) none
        ∃ program, parse 33 (scan "solution s; step t; grid u(t, x);").lexemes = .ok program
          ∧ o.diagnostics = (program.elaborate none).findings.map Finding.diagnostic
            ++ overrideDiagnostics (program.elaborate none).draft? (some 8) program.span
          ∧ o.diagnostics.length = 1 ∧ o.solution?.isSome = false) := by
  refine ⟨?_, ?_, ?_, ?_, ?_⟩
  · have hstrays : (scan "step $ é;").strays ≠ [] := by decide +kernel
    have hnot : ¬ IsProgram (scan "step $ é;").lexemes := by decide +kernel
    obtain ⟨_, _, tail, hdiagnostics, _, htail⟩ :=
      (solution_iff_silent "step $ é;" none none).2.1 (Or.inl hstrays)
    obtain ⟨e, _, rfl⟩ := htail hnot
    exact ⟨_, hdiagnostics, rfl⟩
  · have hstrays : (scan "solution s; step t;").strays = [] := by decide +kernel
    have hprogram : IsProgram (scan "solution s; step t;").lexemes := by decide +kernel
    exact (solution_iff_silent "solution s; step t;" (some 3) none).2.2.1 hstrays hprogram
  · exact ((solution_iff_silent "solution s; step t;" (some 8) none).2.2.2.1 .double rfl).1
  · exact (solution_iff_silent "step t;" (some 8) none).2.2.2.2 (by decide +kernel)
  · intro o
    have hstrays : (scan "solution s; step t; grid u(t, x);").strays = [] := by decide +kernel
    have hprogram : IsProgram (scan "solution s; step t; grid u(t, x);").lexemes := by
      decide +kernel
    obtain ⟨hsilent, _, hreports, _⟩ :=
      solution_iff_silent "solution s; step t; grid u(t, x);" (some 8) none
    obtain ⟨program, hparse, hdiagnostics⟩ := hreports hstrays hprogram
    have hone : o.diagnostics.length = 1 := by decide +kernel
    refine ⟨program, hparse, hdiagnostics, hone, ?_⟩
    rw [Bool.eq_false_iff, ne_eq, hsilent]
    exact List.ne_nil_of_length_pos (hone ▸ Nat.one_pos)

end Stencil.Source
