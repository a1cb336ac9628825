import Mathlib
import Stencil.Proofs.Parsing
import Stencil.Proofs.Scanning
import Stencil.Proofs.Tracking
import Stencil.Source.FrontEnd

/-!
# Elaboration accepts exactly the well-formed programs

What one statement settles (`Tracks.statement`) is what all statements settle together
(`Tracks.statements`), and so a program is accepted exactly if it is well formed
(`elaborate_findings_eq_nil_iff`), and then no statement is lost (`elaborate_describes`).

The two directions come from one induction. As long as every statement fits what was declared before
it, the scope tracks what is declared; at the first statement that does not fit something is
reported, and from then on nothing needs to be known but that reports stay. A program is well formed
if each of its statements fits what the statements before it declare, so that the induction gives
the very same condition.

The names of solutions are settled apart from this, before the first statement: a program has one,
or something is found at once.
-/

namespace Stencil.Source

/-! ## Runs -/

namespace Scope

variable {σ : Scope}

/-- What holds of every element of a list and the elements before it. -/
theorem forall_split_cons {α : Type} {P : List α → α → Prop} (x : α) (xs : List α) :
    (∀ before y after, x :: xs = before ++ y :: after → P before y)
      ↔ P [] x ∧ ∀ before y after, xs = before ++ y :: after → P (x :: before) y := by
  constructor
  · intro h
    exact ⟨h [] x xs rfl, fun before y after hxs => h (x :: before) y after (by rw [hxs]; rfl)⟩
  · rintro ⟨hx, hxs⟩ before y after heq
    cases before with
    | nil =>
      obtain ⟨rfl, _⟩ := List.cons.inj heq
      exact hx
    | cons z before =>
      obtain ⟨rfl, htail⟩ := List.cons.inj heq
      exact hxs before y after htail

/-- **Statements are taken over if each fits what was declared before it.** -/
theorem Tracks.statements (stmts : List Statement) : ∀ {σ : Scope} {D : Declared}, σ.Tracks D →
    (∀ stmt ∈ stmts, ∀ g ∈ (Declared.ofClause stmt.clause).grids, g.Spelled) →
    σ.Settles (stmts.foldl Scope.statement σ)
      (∀ before stmt after, stmts = before ++ stmt :: after →
        (D ++ .ofStatements before).Admits stmt.clause)
      (D ++ .ofStatements stmts) := by
  induction stmts with
  | nil =>
    intro σ D h _
    have hD : D ++ .ofStatements [] = D := D.append_none
    rw [hD]
    exact ⟨fun _ => ⟨rfl, h⟩, fun hc => absurd (fun before _ _ heq => by simp at heq) hc⟩
  | cons stmt stmts ih =>
    intro σ D h hspelled
    obtain ⟨hstmt, hstmts⟩ := List.forall_mem_cons.mp hspelled
    have hfirst := h.statement stmt hstmt
    have hboth := hfirst.seq (fun htracks => ih htracks hstmts) (prefix_statements stmts _)
    rw [Declared.append_assoc, ← Declared.ofStatements_cons] at hboth
    -- a split of the program has its middle at the first statement, or it is a split of the rest
    refine hboth.congr ?_
    rw [forall_split_cons]
    refine and_congr (by rw [show D ++ .ofStatements [] = D from D.append_none]) ?_
    refine forall₂_congr fun before stmt' => forall₂_congr fun after _ => ?_
    rw [Declared.append_assoc, ← Declared.ofStatements_cons]

end Scope

/-! ## Programs -/

namespace Declared

theorem ofStatements_append (stmts stmts' : List Statement) :
    ofStatements (stmts ++ stmts') = ofStatements stmts ++ ofStatements stmts' := by
  induction stmts with
  | nil => simp [ofStatements, eq_append, none]
  | cons stmt stmts ih =>
    rw [List.cons_append, ofStatements_cons, ofStatements_cons, ih, append_assoc]

end Declared

namespace Program

/-- A program is well formed if it has one name and each statement fits those before it. -/
theorem wellFormed_iff (p : Program) : p.WellFormed ↔ p.solutionNames.length = 1
    ∧ ∀ before stmt after, p.statements = before ++ stmt :: after →
      (Declared.ofStatements before).Admits stmt.clause := by
  constructor
  · intro h
    refine ⟨h.oneSolution, fun before stmt after heq => ?_⟩
    have hmem : stmt ∈ p.statements := by simp [heq]
    -- what is declared up to here is the first part of all that is declared
    have hall : Declared.ofStatements p.statements
        = (.ofStatements before ++ .ofClause stmt.clause) ++ .ofStatements after := by
      rw [heq, Declared.ofStatements_append, Declared.ofStatements_cons, Declared.append_assoc]
    have hdistinct := h.distinct
    have hone := h.oneStep
    rw [hall, Declared.dims_append] at hdistinct hone
    rw [List.map_append] at hdistinct
    rw [List.filter_append, List.length_append] at hone
    exact ⟨h.settings stmt hmem, hdistinct.of_append_left, by omega, h.grids before stmt after heq,
      h.equations before stmt after heq⟩
  · rintro ⟨hone, hadmits⟩
    have hdims : ((Declared.ofStatements p.statements).dims.map Dim.name).Nodup
        ∧ ((Declared.ofStatements p.statements).dims.filter Dim.isStep).length ≤ 1 := by
      rcases List.eq_nil_or_concat' p.statements with hnil | ⟨before, last, hlast⟩
      · rw [hnil]
        exact ⟨List.nodup_nil, Nat.zero_le _⟩
      · have hfits := hadmits before last [] hlast
        have hall : Declared.ofStatements p.statements
            = .ofStatements before ++ .ofClause last.clause := by
          rw [hlast, Declared.ofStatements_append, Declared.ofStatements_cons]
          rw [show Declared.ofStatements [] = .none from rfl, Declared.append_none]
        rw [hall]
        exact ⟨hfits.distinct, hfits.oneStep⟩
    refine ⟨hone, fun stmt hmem => ?_, hdims.1, hdims.2, fun before stmt after heq => ?_,
      fun before stmt after heq => ?_⟩
    · obtain ⟨before, after, heq⟩ := List.append_of_mem hmem
      exact (hadmits before stmt after heq).settings
    · exact (hadmits before stmt after heq).grids
    · exact (hadmits before stmt after heq).equations

/-- The header is all right if there is one solution statement, and then it has its name. -/
theorem header_eq_nil_iff (p : Program) : p.header.2 = [] ↔ p.solutionNames.length = 1 := by
  unfold header
  cases p.solutionNames with
  | nil => simp
  | cons first others => simp

theorem solutionNames_eq (p : Program) (h : p.solutionNames.length = 1) :
    p.solutionNames.map Ident.name = [p.header.1] := by
  unfold header
  match hnames : p.solutionNames with
  | [] => rw [hnames] at h; exact absurd h (by simp)
  | [first] => rfl
  | first :: second :: rest => rw [hnames] at h; exact absurd h (by simp)

/-- At first nothing is declared, and the scope tracks that whatever the name and the record are. -/
theorem tracks_start (name : String) (log : Option Sink) (findings : List Finding) :
    (⟨[], none, Draft.new name log, findings⟩ : Scope).Tracks .none where
  toConsistent := Scope.consistent_start name log findings
  dims := rfl
  stepless := fun _ => rfl
  distinct := List.nodup_nil
  describes := ⟨rfl, .nil, .nil⟩

/-- **Elaboration finds nothing in a well-formed program**, and something in any other. -/
theorem elaborate_findings_eq_nil_iff (p : Program) (log : Option Sink) (hspelled : p.Spelled) :
    (p.elaborate log).findings = [] ↔ p.WellFormed := by
  have hrun := Scope.Tracks.statements p.statements (tracks_start p.header.1 log p.header.2) hspelled
  simp only [Declared.none_append] at hrun
  rw [wellFormed_iff, ← header_eq_nil_iff]
  constructor
  · intro hnil
    by_contra hnot
    by_cases hadmits : ∀ before stmt after, p.statements = before ++ stmt :: after →
        (Declared.ofStatements before).Admits stmt.clause
    · exact hnot ⟨(hrun.accepts hadmits).1.symm.trans hnil, hadmits⟩
    · exact hrun.rejects hadmits hnil
  · rintro ⟨hheader, hadmits⟩
    exact (hrun.accepts hadmits).1.trans hheader

/-- **A well-formed program is elaborated to what it describes.** -/
theorem elaborate_describes {p : Program} (h : p.WellFormed) (log : Option Sink)
    (hspelled : p.Spelled) :
    (p.elaborate log).draft.solution.Valid ∧ p.Describes (p.elaborate log).draft.solution := by
  have hrun := Scope.Tracks.statements p.statements (tracks_start p.header.1 log p.header.2) hspelled
  simp only [Declared.none_append] at hrun
  obtain ⟨_, htracks⟩ := hrun.accepts ((wellFormed_iff p).mp h).2
  refine ⟨htracks.valid, ?_, htracks.describes⟩
  have hname := Scope.name_statements p.statements
    ⟨[], none, Draft.new p.header.1 log, p.header.2⟩
  rw [p.solutionNames_eq h.oneSolution]
  exact congrArg (fun name => [name]) hname.symm

theorem draft?_eq_some_iff (σ : Scope) (d : Draft) :
    σ.draft? = some d ↔ σ.findings = [] ∧ σ.draft = d := by
  unfold Scope.draft?
  split_ifs with h
  · simp [List.isEmpty_iff.mp h]
  · simp [List.isEmpty_iff.not.mp h]

/-- The program of a text is what the derivation of its tokens stands for. -/
theorem derivation_of_parseText {source : String} {p : Program}
    (h : (parseText source).program? = some p) :
    ∃ d : Grammar.Program, d.lexemes = (scan source).lexemes ∧ d.tree source.utf8ByteSize = p := by
  unfold parseText at h
  simp only at h
  split at h
  swap
  · exact absurd h (by simp)
  rename_i program hparse
  obtain rfl : program = p := Option.some.inj h
  obtain ⟨d, hd⟩ := derivation_of_ok hparse
  rw [← hd, parse_lexemes] at hparse
  exact ⟨d, hd, Except.ok.inj hparse⟩

/-- The grids of a parsed text have names that can be written. -/
theorem spelled_of_parseText {source : String} {p : Program}
    (h : (parseText source).program? = some p) : p.Spelled := by
  obtain ⟨d, hd, rfl⟩ := derivation_of_parseText h
  intro stmt hstmt g hg
  obtain ⟨s, hs, rfl⟩ := List.mem_map.mp hstmt
  -- the names are among the tokens of the statement, and these among those of the text
  have hident : ∀ id : Ident, id.lexeme ∈ s.clause.lexemes → IsIdentifier id.name := by
    intro id hid
    have hmem : id.lexeme ∈ (scan source).lexemes :=
      hd ▸ List.mem_flatMap.mpr ⟨s, hs, List.mem_append_left _ hid⟩
    exact identifier_of_mem_scan hmem rfl
  obtain ⟨clause, span⟩ := s
  cases clause with
  | grid keywordSpan name openSpan dims closeSpan =>
    obtain rfl := List.mem_singleton.mp hg
    refine ⟨hident name (by simp [Grammar.Clause.lexemes]), fun dim hdim => ?_⟩
    obtain ⟨id, hid, rfl⟩ := List.mem_map.mp hdim
    refine hident id ?_
    simp [Grammar.Clause.lexemes, Grammar.mem_listLexemes hid]
  | solution | set | step | domain | equation => exact absurd hg List.not_mem_nil

/-- **Elaboration accepts exactly the well-formed programs, and loses nothing of them.** A program
    that was parsed from any text is elaborated to a solution if and only if it is well formed, and
    the solution is the one that it describes. -/
theorem elaborate_accepts_wellFormed (source : String) (p : Program)
    (h : (parseText source).program? = some p) (log : Option Sink) :
    ((∃ d, (p.elaborate log).draft? = some d) ↔ p.WellFormed)
      ∧ ∀ d, (p.elaborate log).draft? = some d → p.Describes d.solution := by
  have hspelled := spelled_of_parseText h
  have hfindings := p.elaborate_findings_eq_nil_iff log hspelled
  constructor
  · rw [← hfindings]
    constructor
    · rintro ⟨d, hd⟩
      exact ((draft?_eq_some_iff _ d).mp hd).1
    · intro hnil
      exact ⟨_, (draft?_eq_some_iff _ _).mpr ⟨hnil, rfl⟩⟩
  · intro d hd
    obtain ⟨hnil, rfl⟩ := (draft?_eq_some_iff _ d).mp hd
    exact (elaborate_describes (hfindings.mp hnil) log hspelled).2

/-- Two grids, one of which has no step, and an equation with a negative offset and a negated
    point. -/
theorem elaborate_accepts_wellFormed_wave :
    ∃ p d, (parseText "solution wave; set element_bytes = 8; step t; domain x, y;
        grid u(t, x, y); grid c(y);
        u(t+1, x, y) = -u(t-1, x, y) + c(y) * (u(t, x-1, y) - 2 * u(t, x, y));").program? = some p
      ∧ p.WellFormed ∧ (p.elaborate none).draft? = some d ∧ p.Describes d.solution := by
  have hsome : ((parseText "solution wave; set element_bytes = 8; step t; domain x, y;
        grid u(t, x, y); grid c(y);
        u(t+1, x, y) = -u(t-1, x, y) + c(y) * (u(t, x-1, y) - 2 * u(t, x, y));").program?.bind
          fun p => (p.elaborate none).draft?).isSome = true := by decide +kernel
  obtain ⟨d, hd⟩ := Option.isSome_iff_exists.mp hsome
  obtain ⟨p, hp, hd⟩ := Option.bind_eq_some_iff.mp hd
  have h := elaborate_accepts_wellFormed _ p hp none
  exact ⟨p, d, hp, h.1.mp ⟨d, hd⟩, hd, h.2 d hd⟩

end Program
end Stencil.Source
