import Mathlib
import Stencil.Compile
import Stencil.Manifest
import Stencil.Proofs.FrontEnd
import Stencil.Proofs.Places
import Stencil.Proofs.Scanning

/-!
# Layout never matters

Elaboration copies places into its findings and never decides by them: elaborating a program without
places gives the same draft and the same findings without places (`elaborate_unplaced`). With the
same of parsing, what the front end gives is, but for places, a function of the tokens alone
(`compileSource_unplaced`). Two texts with the same tokens are the same to the compiler
(`layout_never_matters`), whatever stands between the tokens and however their numbers are spelled.

The map that drops places is taken through elaboration as it was through parsing. Statements are
treated all at once: an effect without places is an effect (`Effect.unplaced`), and since a
statement has just one effect, elaborating commutes with the map (`statement_unplaced`). That leaves
the functions that an effect mentions, the lookups and the checks of points, each of which commutes
with the map by itself.

Diagnostics keep their code, their text and the texts of their related places (`SameButPlaces`). A
text never quotes a place, which is why the message of a syntax error is the same without it.
-/

namespace Stencil.Source

/-! ## Findings without places -/

def Problem.unplaced : Problem → Problem
  | stray s => .stray ⟨s.char, .nowhere⟩
  | unexpected e => .unexpected e.unplaced
  | repeatedSolution name _ => .repeatedSolution name .nowhere
  | repeatedDim name kind _ => .repeatedDim name kind .nowhere
  | secondStep name _ => .secondStep name .nowhere
  | problem => problem

def Finding.unplaced (f : Finding) : Finding := ⟨f.problem.unplaced, .nowhere⟩

/-- Two reports that differ in their places alone. -/
structure Diagnostic.SameButPlaces (d d' : Diagnostic) : Prop where
  severity : d.severity = d'.severity
  code : d.code = d'.code
  message : d.message = d'.message
  hint : d.hint = d'.hint
  labels : d.related.map Related.label = d'.related.map Related.label

theorem SyntaxError.message_unplaced (e : SyntaxError) : e.unplaced.message = e.message := by
  obtain ⟨found, expected⟩ := e
  cases found <;> rfl

/-- A report does not show the places of its problem. -/
theorem Finding.diagnostic_unplaced (f : Finding) :
    f.unplaced.diagnostic.SameButPlaces f.diagnostic := by
  obtain ⟨problem, span⟩ := f
  cases problem with
  | unexpected e => exact ⟨rfl, rfl, e.message_unplaced, rfl, rfl⟩
  | _ => exact ⟨rfl, rfl, rfl, rfl, rfl⟩

/-- Findings that are the same without places give diagnostics that differ in places alone. -/
theorem sameButPlaces_of_unplaced_eq {f f' : Finding} (h : f.unplaced = f'.unplaced) :
    f.diagnostic.SameButPlaces f'.diagnostic := by
  have hf := f.diagnostic_unplaced
  have hf' := f'.diagnostic_unplaced
  rw [← h] at hf'
  exact
    { severity := hf.severity.symm.trans hf'.severity
      code := hf.code.symm.trans hf'.code
      message := hf.message.symm.trans hf'.message
      hint := hf.hint.symm.trans hf'.hint
      labels := hf.labels.symm.trans hf'.labels }

/-! ## Points and expressions -/

def Checked.unplaced {α : Type} (c : Checked α) : Checked α :=
  ⟨c.value?, c.findings.map Finding.unplaced⟩

theorem Checked.both_unplaced {α β γ : Type} (f : α → β → γ) (a : Checked α) (b : Checked β) :
    (Checked.both f a b).unplaced = Checked.both f a.unplaced b.unplaced := by
  simp only [Checked.both, Checked.unplaced, List.map_append]

theorem indexFindings_unplaced (g : Grid) (position : Nat) (i : Index) (d : Dim) :
    indexFindings g position i.unplaced d = (indexFindings g position i d).map .unplaced := by
  have hname : i.unplaced.dim.name = i.dim.name := i.dim.name_unplaced
  have hoffset : i.unplaced.offset = i.offset := rfl
  simp only [indexFindings, hname, hoffset, List.map_append]
  split_ifs <;> rfl

theorem indicesFindings_unplaced (g : Grid) (is : List Index) : ∀ (position : Nat) (ds : List Dim),
    indicesFindings g position (is.map .unplaced) ds
      = (indicesFindings g position is ds).map .unplaced := by
  induction is with
  | nil => intro position ds; rfl
  | cons i is ih =>
    intro position ds
    cases ds with
    | nil => rfl
    | cons d ds =>
      rw [List.map_cons, indicesFindings, indicesFindings, indexFindings_unplaced, ih,
        List.map_append]

theorem elaborateIndices_unplaced (g : Grid) (p : Point) :
    elaborateIndices g p.unplaced = (elaborateIndices g p).unplaced := by
  have hfindings := indicesFindings_unplaced g p.indices 0 g.dims
  have hoffsets : (p.indices.map Index.unplaced).filterMap (·.offset.toInt64?)
      = p.indices.filterMap (·.offset.toInt64?) := by
    rw [List.filterMap_map]
    rfl
  unfold elaborateIndices
  simp only [Point.unplaced, hfindings, hoffsets]
  cases indicesFindings g 0 p.indices g.dims with
  | cons f fs => rfl
  | nil =>
    rw [List.map_nil]
    cases Stencil.Point.make g (p.indices.filterMap (·.offset.toInt64?)) with
    | ok q => rfl
    | error e => rfl

theorem elaboratePoint_unplaced (s : Solution) (p : Point) :
    elaboratePoint s p.unplaced = (elaboratePoint s p).unplaced := by
  have hname : p.unplaced.grid.name = p.grid.name := p.grid.name_unplaced
  have hlength : p.unplaced.indices.length = p.indices.length := List.length_map _
  unfold elaboratePoint
  rw [hname, hlength]
  cases s.grid? p.grid.name with
  | none => rfl
  | some g =>
    by_cases hcount : p.indices.length = g.dims.length
    · simp only [if_pos hcount, elaborateIndices_unplaced]
    · simp only [if_neg hcount]
      rfl

/-- An expression is elaborated to the same without places, and the same is found in it. -/
theorem elaborateExpr_unplaced (s : Solution) (e : Expr) :
    elaborateExpr s e.unplaced = (elaborateExpr s e).unplaced := by
  induction e with
  | number v span => rfl
  | point p =>
    rw [Expr.unplaced, elaborateExpr, elaborateExpr, elaboratePoint_unplaced]
    rfl
  | binary op lhs rhs span ihl ihr =>
    rw [Expr.unplaced, elaborateExpr, elaborateExpr, ihl, ihr, Checked.both_unplaced]
  | neg operand span ih =>
    -- a negated number is a case of its own
    cases operand with
    | number v span => rfl
    | point | neg | binary =>
      simp only [Expr.unplaced, elaborateExpr] at ih ⊢
      rw [ih]
      rfl

/-! ## Statements -/

def DeclaredDim.unplaced (d : DeclaredDim) : DeclaredDim := ⟨d.dim, .nowhere⟩

namespace Scope

def unplaced (σ : Scope) : Scope :=
  ⟨σ.dims.map .unplaced, σ.step.map fun _ => .nowhere, σ.draft, σ.findings.map .unplaced⟩

variable (σ : Scope)

@[simp] theorem draft_unplaced : σ.unplaced.draft = σ.draft := rfl

theorem report_unplaced (fs : List Finding) :
    (σ.report fs).unplaced = σ.unplaced.report (fs.map .unplaced) := by
  simp only [report, unplaced, List.map_append]

theorem report_one_unplaced (f : Finding) :
    σ.unplaced.report [f.unplaced] = (σ.report [f]).unplaced :=
  (σ.report_unplaced [f]).symm

theorem dim?_unplaced (name : String) :
    σ.unplaced.dim? name = (σ.dim? name).map .unplaced :=
  List.find?_map ..

theorem missing_unplaced (ids : List Ident) :
    σ.unplaced.missing (ids.map .unplaced) = (σ.missing ids).map .unplaced := by
  unfold missing
  rw [List.filter_map]
  congr 2
  funext id
  simp only [Function.comp, dim?_unplaced, Option.isNone_map, Ident.name_unplaced]

theorem found_unplaced (ids : List Ident) :
    σ.unplaced.found (ids.map .unplaced) = σ.found ids := by
  unfold found
  rw [List.filterMap_map]
  congr 1
  funext id
  simp only [Function.comp, dim?_unplaced, Option.map_map, Ident.name_unplaced]
  rfl

variable {σ} {σ' : Scope} {span : Span}

/-- A declaration has the same effect; the earlier declaration that it may name has lost its place
    too. -/
theorem Declares.unplaced {id : Ident} {kind : DimKind} (h : σ.Declares id kind σ') :
    σ.unplaced.Declares id.unplaced kind σ'.unplaced := by
  cases h with
  | @repeated prior hprior =>
    have hdim : σ.unplaced.dim? id.unplaced.name = some prior.unplaced := by
      rw [Ident.name_unplaced, dim?_unplaced, hprior]
      rfl
    rw [← report_one_unplaced]
    exact .repeated hdim
  | entered hnone =>
    have hdim : σ.unplaced.dim? id.unplaced.name = none := by
      rw [Ident.name_unplaced, dim?_unplaced, hnone]
      rfl
    have hscope : (σ.withDim id kind).unplaced = σ.unplaced.withDim id.unplaced kind := by
      simp only [withDim, unplaced, List.map_append]
      by_cases hkind : kind = .step
      · simp only [if_pos hkind]
        rfl
      · simp only [if_neg hkind]
        rfl
    rw [hscope]
    exact .entered hdim

theorem sides_unplaced (s : Solution) (lhs : Point) (rhs : Expr) :
    sides s lhs.unplaced rhs.unplaced = (sides s lhs rhs).unplaced := by
  unfold sides
  rw [elaboratePoint_unplaced, elaborateExpr_unplaced, Checked.both_unplaced]

theorem report_sides_unplaced (σ : Scope) (lhs : Point) (rhs : Expr) :
    (σ.report (sides σ.draft.solution lhs rhs).findings).unplaced
      = σ.unplaced.report (sides σ.unplaced.draft.solution lhs.unplaced rhs.unplaced).findings := by
  rw [report_unplaced, draft_unplaced, sides_unplaced]
  rfl

/-- **Whatever a statement leads to, it leads to without places.** -/
theorem Effect.unplaced {clause : Clause} (h : Effect span σ clause σ') :
    Effect .nowhere σ.unplaced clause.unplaced σ'.unplaced := by
  induction h with
  | named σ id => exact .named _ _
  | widthSet hname hvalue => exact .widthSet hname hvalue
  | widthUnsupported hname hvalue =>
    rw [← report_one_unplaced]
    exact .widthUnsupported hname hvalue
  | settingUnknown hname =>
    rw [← report_one_unplaced]
    exact .settingUnknown hname
  | step hfirst h =>
    refine .step ?_ h.unplaced
    rw [Scope.unplaced, hfirst]
    rfl
  | @stepSecond σ id first hfirst =>
    have hstep : σ.unplaced.step = some .nowhere := by
      rw [Scope.unplaced, hfirst]
      rfl
    rw [← report_one_unplaced]
    exact .stepSecond hstep
  | domainNone σ => exact .domainNone _
  | domain h _ ih => exact .domain h.unplaced ih
  | @dimsUnknown σ name dims hmissing =>
    have hnames := σ.missing_unplaced dims
    -- one report for each dimension that is missing, so that the lists are compared as a whole
    have hfindings : (σ.report ((σ.missing dims).map fun id => ⟨.unknownDim id.name, id.span⟩)).unplaced
        = σ.unplaced.report ((σ.unplaced.missing (dims.map .unplaced)).map fun id =>
            ⟨.unknownDim id.name, id.span⟩) := by
      rw [report_unplaced, hnames, List.map_map, List.map_map]
      rfl
    rw [hfindings]
    refine .dimsUnknown ?_
    rw [hnames]
    simpa using hmissing
  | @grid σ name dims g draft hmissing hcall =>
    have hcall' : σ.unplaced.draft.declareGrid name.name (σ.unplaced.found (dims.map .unplaced))
        = (.ok g, draft) := by rw [found_unplaced]; exact hcall
    exact .grid (by rw [missing_unplaced, hmissing, List.map_nil]) hcall'
  | @gridRefused σ name dims e hmissing hcall =>
    rw [← report_one_unplaced]
    refine .gridRefused (by rw [missing_unplaced, hmissing, List.map_nil]) ?_
    rw [found_unplaced]
    exact hcall
  | @sidesUnread σ lhs rhs hread =>
    rw [report_sides_unplaced]
    exact .sidesUnread (by rw [draft_unplaced, sides_unplaced]; exact hread)
  | @equation σ lhs rhs l r e draft hread hcall =>
    have hread' : (sides σ.unplaced.draft.solution lhs.unplaced rhs.unplaced).value? = some (l, r) := by
      rw [draft_unplaced, sides_unplaced]
      exact hread
    -- the effect has the findings of the sides without places, which are those of the sides
    have heffect : Effect .nowhere σ.unplaced (.equation lhs.unplaced rhs.unplaced) _ :=
      .equation hread' hcall
    rw [← report_sides_unplaced] at heffect
    exact heffect
  | @equationRefused σ lhs rhs l r e hread hcall =>
    rw [← report_one_unplaced, report_sides_unplaced]
    exact .equationRefused (by rw [draft_unplaced, sides_unplaced]; exact hread) hcall

/-- **A statement is elaborated without a look at places.** -/
theorem statement_unplaced (σ : Scope) (stmt : Statement) :
    σ.unplaced.statement stmt.unplaced = (σ.statement stmt).unplaced :=
  (effect_statement σ stmt).unplaced.eq_statement.symm

end Scope

/-! ## Programs -/

namespace Program

theorem solutionNames_unplaced (p : Program) :
    p.unplaced.solutionNames = p.solutionNames.map .unplaced := by
  unfold solutionNames
  rw [show p.unplaced.statements = p.statements.map .unplaced from rfl, List.filterMap_map,
    List.map_filterMap]
  congr 1
  funext stmt
  obtain ⟨clause, span⟩ := stmt
  cases clause <;> rfl

/-- The name of a solution does not depend on where it stands. -/
theorem header_unplaced (p : Program) :
    p.unplaced.header = (p.header.1, p.header.2.map .unplaced) := by
  unfold header
  rw [solutionNames_unplaced]
  cases p.solutionNames with
  | nil => rfl
  | cons first others =>
    simp only [List.map_cons, List.map_map]
    rfl

/-- **Elaboration does not look at places**: without them it gives the same draft and the same
    findings. -/
theorem elaborate_unplaced (p : Program) (log : Option Sink) :
    p.unplaced.elaborate log = (p.elaborate log).unplaced := by
  unfold elaborate
  rw [header_unplaced]
  show (p.statements.map Statement.unplaced).foldl Scope.statement
      (Scope.unplaced ⟨[], none, Draft.new p.header.1 log, p.header.2⟩) = _
  rw [List.foldl_map]
  exact List.foldl_hom Scope.unplaced (fun σ stmt => σ.statement_unplaced stmt)

end Program

/-! ## The front end -/

namespace Outcome

def unplaced (o : Outcome) : Outcome := ⟨o.draft?, o.findings.map .unplaced, o.log⟩

theorem override_unplaced (o : Outcome) (span : Span) (elementBytes : Option Nat) :
    o.unplaced.override .nowhere elementBytes = (o.override span elementBytes).unplaced := by
  obtain ⟨draft?, findings, log⟩ := o
  cases draft? with
  | none => rfl
  | some draft =>
    cases elementBytes with
    | none => rfl
    | some bytes =>
      simp only [override, unplaced]
      cases draft.setElementBytes bytes with
      | mk r draft' =>
        cases r with
        | ok u => rfl
        | error e => simp only [List.map_append]; rfl

/-- Outcomes that are the same without places have reports that differ in their places alone. -/
theorem diagnostics_of_unplaced_eq {o o' : Outcome} (h : o.unplaced = o'.unplaced) :
    List.Forall₂ Diagnostic.SameButPlaces o.diagnostics o'.diagnostics := by
  have hfindings : o.findings.map Finding.unplaced = o'.findings.map Finding.unplaced :=
    congrArg Outcome.findings h
  rw [diagnostics, diagnostics, List.forall₂_map_left_iff, List.forall₂_map_right_iff]
  rw [← List.forall₂_eq_eq_eq, List.forall₂_map_left_iff, List.forall₂_map_right_iff] at hfindings
  exact hfindings.imp fun _ _ => sameButPlaces_of_unplaced_eq

end Outcome

theorem Scope.outcome_unplaced (σ : Scope) : σ.unplaced.outcome = σ.outcome.unplaced := by
  simp only [outcome, draft?, unplaced, Outcome.unplaced, List.isEmpty_map]

/-- The tokens of a text, without their places. -/
def tokens (source : String) : List Token := (scan source).lexemes.map Lexeme.token

/-- What the front end makes of tokens that have no places. -/
def compileTokens (ts : List Token) (elementBytes : Option Nat) (log : Option Sink) : Outcome :=
  match parse 0 (ts.map fun t => ⟨t, .nowhere⟩) with
  | .ok program => ((program.elaborate log).outcome).override .nowhere elementBytes
  | .error e => ⟨none, [⟨.unexpected e, .nowhere⟩], log⟩

/-- **What the front end gives is, but for places, a function of the tokens**, in a text without
    stray characters. -/
theorem compileSource_unplaced {source : String} (hstrays : (scan source).strays = [])
    (elementBytes : Option Nat) (log : Option Sink) :
    (compileSource source elementBytes log).unplaced
      = compileTokens (tokens source) elementBytes log := by
  have hlexemes : (tokens source).map (fun t => ⟨t, .nowhere⟩)
      = (scan source).lexemes.map Lexeme.unplaced := by
    rw [tokens, List.map_map]
    rfl
  rw [compileTokens, hlexemes, parse_unplaced source.utf8ByteSize]
  cases hparse : parse source.utf8ByteSize (scan source).lexemes with
  | ok program =>
    rw [compileSource_of_program hstrays hparse, ← Outcome.override_unplaced,
      ← Scope.outcome_unplaced, ← Program.elaborate_unplaced]
    rfl
  | error e =>
    have hfindings : (parseText source).findings
        = [⟨.unexpected e, e.span source.utf8ByteSize⟩] := by
      rw [parseText_of_error hparse, hstrays]
      rfl
    rw [compileSource_of_findings (by simp [hfindings]), hfindings]
    rfl

/-! ## Texts with the same tokens -/

/-- The tokens are the same, where numbers are compared by their values. -/
def Token.agrees : Token → Token → Bool
  | number x, number y => x.agrees y
  | t, t' => t = t'

/-- Scanned tokens that agree are equal: no number among them has a sign, so that there is one zero
    only. -/
theorem tokens_eq_of_agrees {source source' : String}
    (h : List.Forall₂ (fun t t' => t.agrees t' = true) (tokens source) (tokens source')) :
    tokens source = tokens source' := by
  have hsign : ∀ source v, .number v ∈ tokens source → v.isNegative = false := by
    intro source v hv
    obtain ⟨x, hx, hxv⟩ := List.mem_map.mp hv
    exact not_negative_of_mem_scan hx hxv
  rw [← List.forall₂_eq_eq_eq]
  refine (List.forall₂_iff_zip.mp h).elim fun hlength hzip => List.forall₂_iff_zip.mpr ⟨hlength, ?_⟩
  intro t t' hmem
  have hagrees := hzip hmem
  obtain ⟨ht, ht'⟩ := List.of_mem_zip hmem
  cases t with
  | number x =>
    cases t' with
    | number y => rw [Double.eq_of_agrees (hsign _ x ht) (hsign _ y ht') hagrees]
    | _ => exact absurd hagrees (by simp [Token.agrees])
  | _ => simpa [Token.agrees] using hagrees

/-- **Layout never matters to the compiler.** Two texts that are scanned without stray characters to
    the same tokens, numbers compared by value, differ in nothing but places, for every element width
    asked for, with or without sharing, and whatever the changes are recorded in.

    The front end gives the same solution of both or of neither, and the same record; its reports
    correspond one to one and differ in their places alone. The canonical texts and the fingerprints
    are the same, and so is the artifact of every format, or the refusal of the format. -/
theorem layout_never_matters (source source' : String)
    (hstrays : (scan source).strays = []) (hstrays' : (scan source').strays = [])
    (htokens : List.Forall₂ (fun t t' => t.agrees t' = true) (tokens source) (tokens source'))
    (options : CompileOptions) (log : Option Sink) :
    let o := compileSource source options.elementBytes log
    let o' := compileSource source' options.elementBytes log
    o.solution? = o'.solution?
      ∧ o.solution?.map Solution.canonical = o'.solution?.map Solution.canonical
      ∧ o.solution?.map Solution.fingerprint = o'.solution?.map Solution.fingerprint
      ∧ o.log = o'.log
      ∧ List.Forall₂ Diagnostic.SameButPlaces o.diagnostics o'.diagnostics
      ∧ ∀ format,
        (∀ text, compile source format options = .ok text
          ↔ compile source' format options = .ok text)
        ∧ (∀ e, compile source format options = .error (.format e)
          ↔ compile source' format options = .error (.format e)) := by
  -- `compile` records nothing, so the outcomes are compared for every record
  have hsame : ∀ log, (compileSource source options.elementBytes log).unplaced
      = (compileSource source' options.elementBytes log).unplaced := by
    intro log
    rw [compileSource_unplaced hstrays, compileSource_unplaced hstrays',
      tokens_eq_of_agrees htokens]
  have hdraft : ∀ log, (compileSource source options.elementBytes log).draft?
      = (compileSource source' options.elementBytes log).draft? := by
    intro log
    have h := congrArg Outcome.draft? (hsame log)
    exact h
  intro o o'
  have hsolution : o.solution? = o'.solution? := congrArg (Option.map Draft.solution) (hdraft log)
  have hlog := congrArg Outcome.log (hsame log)
  refine ⟨hsolution, by rw [hsolution], by rw [hsolution], hlog,
    Outcome.diagnostics_of_unplaced_eq (hsame log), ?_⟩
  intro format
  unfold compile
  simp only [hdraft none]
  cases (compileSource source' options.elementBytes none).draft? with
  | none => exact ⟨fun text => by simp, fun e => by simp⟩
  | some draft => exact ⟨fun text => Iff.rfl, fun e => Iff.rfl⟩

/-- A text on one line, and one with a comment, other blanks and other spellings of its numbers; and
    two texts with an unknown grid, which is reported at different places. -/
theorem layout_never_matters_respelled :
    ((compileSource "solution rod; step t; grid heat(t); heat(t+1) = 0.5*heat(t);" none
        none).solution?.isSome = true
      ∧ (compileSource "solution rod; step t; grid heat(t); heat(t+1) = 0.5*heat(t);" none
          none).solution?
        = (compileSource "solution rod;step t;\n\tgrid heat(t); # half\nheat( t+1.0 )=5E-1*heat(t);" none
          none).solution?)
    ∧ List.Forall₂ Diagnostic.SameButPlaces
        (compileSource "solution rod; heat() = 0;" none none).diagnostics
        (compileSource "solution rod;\n  heat() = 0.0;" none none).diagnostics
    ∧ (compileSource "solution rod; heat() = 0;" none none).diagnostics
        ≠ (compileSource "solution rod;\n  heat() = 0.0;" none none).diagnostics := by
  refine ⟨⟨by decide +kernel, ?_⟩, ?_, by decide +kernel⟩
  · exact (layout_never_matters _ _ (by decide +kernel) (by decide +kernel) (by decide +kernel)
      ⟨none, false⟩ none).1
  · exact (layout_never_matters _ _ (by decide +kernel) (by decide +kernel) (by decide +kernel)
      ⟨none, true⟩ none).2.2.2.2.1

end Stencil.Source
