import Mathlib
import Stencil.Proofs.Edits
import Stencil.Proofs.Values
import Stencil.Source.Elaboration

/-!
# What a statement does

Elaboration takes a program statement by statement, and whatever is said about it has to be said
about each kind of statement. `Scope.Effect` lists once what a statement can do to a scope, and on
what it depends: each way in which a statement can be taken over, and each way in which it can be
reported. The scope after a statement is the one and only scope that the list allows (`effect_iff`).

From this everything else follows by cases, without a look at how a statement is elaborated.
Findings are only ever added (`Effect.prefix_findings`), and what every effect keeps is kept by all
statements of a program (`statements_induct`).

A statement with several names declares them one by one, and so its effect is a chain of effects of
declarations (`Effect.domain`).

A setting goes through a number before it is a width: the text gives a double, the draft asks for a
count of bytes, and only whole numbers have one. What is accepted is said in terms of the value
written (`setWidth_of_isInt`, `setWidth_of_not_isInt`), so that the conversions in between never
appear in what follows.
-/

namespace Stencil.Source

/-! ## Widths that are set -/

/-- A count of bytes stands for the width that has it, and for no other. -/
theorem ofBytes?_eq_some_iff (n : Nat) (w : Width) : Width.ofBytes? n = some w ↔ w.bytes = n := by
  unfold Width.ofBytes?
  split_ifs with h4 h8 <;> cases w <;> simp [Width.bytes] <;> omega

/-- A count of bytes stands for no width only if no width has it. -/
theorem ofBytes?_eq_none_iff (n : Nat) : Width.ofBytes? n = none ↔ ∀ w : Width, w.bytes ≠ n := by
  simp only [Option.eq_none_iff_forall_ne_some, ne_eq, ofBytes?_eq_some_iff]

namespace Scope

variable {draft draft' : Draft} {value : Double}

/-- **A value that is worth a width sets it**, and nothing else of the draft. -/
theorem setWidth_of_isInt {w : Width} (h : value.IsInt w.bytes) :
    setWidth draft value
      = (true, { draft with solution := { draft.solution with width := w } }) := by
  have hint := (Double.toInt?_eq_some_iff value w.bytes).mpr h
  have hset := (Draft.setElementBytes_eq_ok_iff (d := draft) (u := ())).mpr
    ⟨w, (ofBytes?_eq_some_iff w.bytes w).mpr rfl, rfl⟩
  simp only [setWidth, hint, if_pos (Int.natCast_nonneg w.bytes), Int.toNat_natCast, hset]
  rfl

/-- **Any other value is turned down**, a fraction and a negative number too, and the draft stays as it
    was. -/
theorem setWidth_of_not_isInt (h : ∀ w : Width, ¬ value.IsInt w.bytes) :
    setWidth draft value = (false, draft) := by
  unfold setWidth
  cases hint : value.toInt? with
  | none => rfl
  | some n =>
    have hn := (Double.toInt?_eq_some_iff value n).mp hint
    dsimp only
    -- the draft takes a natural number, so that a negative one is turned down before it is asked
    by_cases hpos : 0 ≤ n
    · have hnone : Width.ofBytes? n.toNat = none := by
        rw [ofBytes?_eq_none_iff]
        intro w hw
        refine h w ?_
        rw [hw, Int.toNat_of_nonneg hpos]
        exact hn
      rw [if_pos hpos]
      cases hset : draft.setElementBytes n.toNat with
      | mk r d =>
        cases r with
        | ok u =>
          obtain ⟨w, hw, _⟩ := Draft.setElementBytes_eq_ok_iff.mp hset
          rw [hnone] at hw
          cases hw
        | error e =>
          obtain ⟨rfl, _⟩ := Draft.setElementBytes_refused hset
          rfl
    · rw [if_neg hpos]

end Scope

/-! ## Effects -/

namespace Scope

/-- The scope with one more dimension. -/
def withDim (σ : Scope) (id : Ident) (kind : DimKind) : Scope :=
  { σ with
    dims := σ.dims ++ [⟨⟨id.name, kind⟩, id.span⟩]
    step := if kind = .step then some id.span else σ.step }

/-- What declaring a dimension does: it is entered, or it is reported with the earlier one of its
    name. -/
inductive Declares (σ : Scope) (id : Ident) (kind : DimKind) : Scope → Prop where
  | entered (h : σ.dim? id.name = none) : Declares σ id kind (σ.withDim id kind)
  | repeated {prior : DeclaredDim} (h : σ.dim? id.name = some prior) :
    Declares σ id kind (σ.report [⟨.repeatedDim id.name prior.dim.kind prior.span, id.span⟩])

/-- **What a statement does to a scope**, with all that it depends on. -/
inductive Effect (span : Span) : Scope → Clause → Scope → Prop where
  /-- The name was settled before. -/
  | named (σ : Scope) (id : Ident) : Effect span σ (.solution id) σ
  | widthSet {σ : Scope} {name : Ident} {value : Double} {valueSpan : Span} {w : Width}
    (hname : name.name = "element_bytes") (hvalue : value.IsInt w.bytes) :
    Effect span σ (.set name value valueSpan)
      { σ with draft := { σ.draft with solution := { σ.draft.solution with width := w } } }
  | widthUnsupported {σ : Scope} {name : Ident} {value : Double} {valueSpan : Span}
    (hname : name.name = "element_bytes") (hvalue : ∀ w : Width, ¬ value.IsInt w.bytes) :
    Effect span σ (.set name value valueSpan) (σ.report [⟨.unsupportedSetting value, valueSpan⟩])
  | settingUnknown {σ : Scope} {name : Ident} {value : Double} {valueSpan : Span}
    (hname : name.name ≠ "element_bytes") :
    Effect span σ (.set name value valueSpan) (σ.report [⟨.unknownSetting name.name, name.span⟩])
  | step {σ σ' : Scope} {id : Ident} (hfirst : σ.step = none) (h : σ.Declares id .step σ') :
    Effect span σ (.step id) σ'
  | stepSecond {σ : Scope} {id : Ident} {first : Span} (hfirst : σ.step = some first) :
    Effect span σ (.step id) (σ.report [⟨.secondStep id.name first, id.span⟩])
  | domainNone (σ : Scope) : Effect span σ (.domain []) σ
  /-- Names are declared from left to right. -/
  | domain {σ σ₁ σ₂ : Scope} {id : Ident} {ids : List Ident} (h : σ.Declares id .domain σ₁)
    (hrest : Effect span σ₁ (.domain ids) σ₂) : Effect span σ (.domain (id :: ids)) σ₂
  | dimsUnknown {σ : Scope} {name : Ident} {dims : List Ident} (hmissing : σ.missing dims ≠ []) :
    Effect span σ (.grid name dims)
      (σ.report ((σ.missing dims).map fun id => ⟨.unknownDim id.name, id.span⟩))
  | grid {σ : Scope} {name : Ident} {dims : List Ident} {g : Grid} {draft : Draft}
    (hmissing : σ.missing dims = [])
    (hcall : σ.draft.declareGrid name.name (σ.found dims) = (.ok g, draft)) :
    Effect span σ (.grid name dims) { σ with draft := draft }
  | gridRefused {σ : Scope} {name : Ident} {dims : List Ident} {e : Error}
    (hmissing : σ.missing dims = [])
    (hcall : σ.draft.declareGrid name.name (σ.found dims) = (.error e, σ.draft)) :
    Effect span σ (.grid name dims) (σ.report [⟨.model e, name.span⟩])
  /-- Something is wrong with a side. -/
  | sidesUnread {σ : Scope} {lhs : Point} {rhs : Expr}
    (hread : (sides σ.draft.solution lhs rhs).value? = none) :
    Effect span σ (.equation lhs rhs) (σ.report (sides σ.draft.solution lhs rhs).findings)
  | equation {σ : Scope} {lhs : Point} {rhs : Expr} {l : Stencil.Point} {r : Stencil.Expr}
    {e : Equation} {draft : Draft}
    (hread : (sides σ.draft.solution lhs rhs).value? = some (l, r))
    (hcall : σ.draft.equate l r = (.ok e, draft)) :
    Effect span σ (.equation lhs rhs)
      { σ.report (sides σ.draft.solution lhs rhs).findings with draft := draft }
  | equationRefused {σ : Scope} {lhs : Point} {rhs : Expr} {l : Stencil.Point} {r : Stencil.Expr}
    {e : Error} (hread : (sides σ.draft.solution lhs rhs).value? = some (l, r))
    (hcall : σ.draft.equate l r = (.error e, σ.draft)) :
    Effect span σ (.equation lhs rhs)
      ((σ.report (sides σ.draft.solution lhs rhs).findings).report [⟨.model e, span⟩])

variable {σ σ' : Scope} {span : Span}

/-! ### The scope after a statement is its effect -/

/-- Declaring a dimension has one of the two effects that are listed for it: it is entered, or
    reported as declared before. -/
theorem declares_declareDim (σ : Scope) (id : Ident) (kind : DimKind) :
    σ.Declares id kind (σ.declareDim id kind) := by
  unfold declareDim
  cases hprior : σ.dim? id.name with
  | some prior => exact .repeated hprior
  | none => exact .entered hprior

/-- The effects listed for a declaration exclude each other, so that the list leaves no choice. -/
theorem Declares.eq_declareDim {id : Ident} {kind : DimKind} (h : σ.Declares id kind σ') :
    σ' = σ.declareDim id kind := by
  cases h with
  | entered h => simp only [declareDim, h]; rfl
  | repeated h => simp only [declareDim, h]

/-- A call that is accepted puts its draft in place and reports nothing. -/
theorem attempt_of_ok {α : Type} {call : Edit α} {a : α} {draft : Draft} (span : Span)
    (h : σ.draft.run call = (.ok a, draft)) : σ.attempt span call = { σ with draft := draft } := by
  simp only [attempt, h]

/-- A call that is refused is reported, at the place it is charged to, and the draft stays. -/
theorem attempt_of_error {α : Type} {call : Edit α} {e : Error} (span : Span)
    (h : σ.draft.run call = (.error e, σ.draft)) :
    σ.attempt span call = σ.report [⟨.model e, span⟩] := by
  simp only [attempt, h]

/-- Every setting has an effect that is listed: the width set, the value unsupported, or the name
    unknown. -/
theorem effect_set (σ : Scope) (name : Ident) (value : Double) (valueSpan : Span) :
    Effect span σ (.set name value valueSpan) (σ.set name value valueSpan) := by
  unfold Scope.set
  by_cases hname : name.name = "element_bytes"
  · rw [if_pos hname]
    by_cases hvalue : ∃ w : Width, value.IsInt w.bytes
    · obtain ⟨w, hw⟩ := hvalue
      rw [setWidth_of_isInt hw]
      exact .widthSet hname hw
    · have hnone := not_exists.mp hvalue
      rw [setWidth_of_not_isInt hnone]
      exact .widthUnsupported hname hnone
  · rw [if_neg hname]
    exact .settingUnknown hname

/-- Several names in one declaration are declared in the order they are written, each on the scope
    that the one before it left. -/
theorem effect_domain (ids : List Ident) : ∀ σ : Scope,
    Effect span σ (.domain ids) (ids.foldl (fun σ id => σ.declareDim id .domain) σ) := by
  induction ids with
  | nil => exact fun σ => .domainNone σ
  | cons id ids ih => exact fun σ => .domain (σ.declares_declareDim id .domain) (ih _)

/-- Every grid declaration has an effect that is listed: dimensions unknown, the call refused, or
    the grid declared. -/
theorem effect_grid (σ : Scope) (name : Ident) (dims : List Ident) :
    Effect span σ (.grid name dims) (σ.declareGrid name dims) := by
  unfold Scope.declareGrid
  split
  · rename_i hmissing
    cases hcall : σ.draft.declareGrid name.name (σ.found dims) with
    | mk r draft =>
      cases r with
      | ok g =>
        rw [attempt_of_ok name.span hcall]
        exact .grid hmissing hcall
      | error e =>
        obtain ⟨rfl, _⟩ := Draft.declareGrid_refused hcall
        rw [attempt_of_error name.span hcall]
        exact .gridRefused hmissing hcall
  · rename_i hmissing
    exact .dimsUnknown hmissing

/-- Every equation has an effect that is listed: sides unread, the call refused, or the equation
    added. -/
theorem effect_equation (σ : Scope) (lhs : Point) (rhs : Expr) (span : Span) :
    Effect span σ (.equation lhs rhs) (σ.equate lhs rhs span) := by
  unfold Scope.equate
  dsimp only
  split
  · rename_i l r hread
    cases hcall : σ.draft.equate l r with
    | mk result draft =>
      cases result with
      | ok e =>
        rw [attempt_of_ok span (σ := σ.report _) hcall]
        exact .equation hread hcall
      | error e =>
        obtain ⟨rfl, _⟩ := Draft.equate_refused hcall
        rw [attempt_of_error span (σ := σ.report _) hcall]
        exact .equationRefused hread hcall
  · rename_i hread
    exact .sidesUnread hread

/-- **Every statement has one of the listed effects**, so that nothing a program can say is left out
    of the list. -/
theorem effect_statement (σ : Scope) (stmt : Statement) :
    Effect stmt.span σ stmt.clause (σ.statement stmt) := by
  obtain ⟨clause, span⟩ := stmt
  cases clause with
  | solution id => exact .named σ id
  | set name value valueSpan => exact σ.effect_set name value valueSpan
  | step id =>
    show Effect span σ (.step id) (σ.declareStep id)
    unfold declareStep
    cases hfirst : σ.step with
    | some first => exact .stepSecond hfirst
    | none => exact .step hfirst (σ.declares_declareDim id .step)
  | domain ids => exact effect_domain ids σ
  | grid name dims => exact σ.effect_grid name dims
  | equation lhs rhs => exact σ.effect_equation lhs rhs span

/-- A statement leads to one scope only: whichever entry of the list applies, the scope it names is
    the one elaboration gives. -/
theorem Effect.eq_statement {clause : Clause} (h : Effect span σ clause σ') :
    σ' = σ.statement ⟨clause, span⟩ := by
  induction h with
  | named σ id => rfl
  | widthSet hname hvalue =>
    show _ = Scope.set _ _ _ _
    simp only [Scope.set, if_pos hname, setWidth_of_isInt hvalue, if_true]
  | widthUnsupported hname hvalue =>
    show _ = Scope.set _ _ _ _
    simp only [Scope.set, if_pos hname, setWidth_of_not_isInt hvalue, Bool.false_eq_true, if_false]
  | settingUnknown hname =>
    show _ = Scope.set _ _ _ _
    rw [Scope.set, if_neg hname]
  | @step σ σ' id hfirst h =>
    show _ = σ.declareStep id
    simp only [declareStep, hfirst]
    exact h.eq_declareDim
  | @stepSecond σ id first hfirst =>
    show _ = σ.declareStep id
    simp only [declareStep, hfirst]
  | domainNone σ => rfl
  -- the only case with an induction: the names after the first are declared on the scope it left
  | domain h hrest ih =>
    rw [h.eq_declareDim] at ih
    exact ih
  | @dimsUnknown σ name dims hmissing =>
    show _ = σ.declareGrid name dims
    unfold Scope.declareGrid
    split
    · rename_i hnone
      exact absurd hnone hmissing
    · rfl
  | @grid σ name dims g draft hmissing hcall =>
    show _ = σ.declareGrid name dims
    simp only [Scope.declareGrid, hmissing]
    exact (attempt_of_ok name.span hcall).symm
  | @gridRefused σ name dims e hmissing hcall =>
    show _ = σ.declareGrid name dims
    simp only [Scope.declareGrid, hmissing]
    exact (attempt_of_error name.span hcall).symm
  | @sidesUnread σ lhs rhs hread =>
    show _ = σ.equate lhs rhs span
    simp only [Scope.equate, hread]
  | @equation σ lhs rhs l r e draft hread hcall =>
    show _ = σ.equate lhs rhs span
    simp only [Scope.equate, hread]
    exact (attempt_of_ok span (σ := σ.report _) hcall).symm
  | @equationRefused σ lhs rhs l r e hread hcall =>
    show _ = σ.equate lhs rhs span
    simp only [Scope.equate, hread]
    exact (attempt_of_error span (σ := σ.report _) hcall).symm

/-- **The list of effects is what a statement does**, no more and no less. -/
theorem effect_iff {clause : Clause} :
    Effect span σ clause σ' ↔ σ' = σ.statement ⟨clause, span⟩ := by
  constructor
  · exact Effect.eq_statement
  · rintro rfl
    exact effect_statement σ ⟨clause, span⟩

/-! ### What follows for all statements -/

@[simp] theorem report_nil (σ : Scope) : σ.report [] = σ := by
  rw [report, List.append_nil]

/-- What every effect keeps is kept by all statements of a program, taken over or reported. -/
theorem statements_induct {P : Scope → Prop} (stmts : List Statement)
    (hstep : ∀ σ, ∀ stmt ∈ stmts, P σ → P (σ.statement stmt)) (hσ : P σ) :
    P (stmts.foldl statement σ) := by
  induction stmts generalizing σ with
  | nil => exact hσ
  | cons stmt stmts ih =>
    apply ih
    · intro σ stmt hstmt
      exact hstep σ stmt (List.mem_cons_of_mem _ hstmt)
    · exact hstep σ stmt List.mem_cons_self hσ

theorem prefix_report (σ : Scope) (fs : List Finding) : σ.findings <+: (σ.report fs).findings :=
  List.prefix_append _ _

theorem Declares.prefix_findings {id : Ident} {kind : DimKind} (h : σ.Declares id kind σ') :
    σ.findings <+: σ'.findings := by
  cases h with
  | entered _ => exact List.prefix_refl _
  | repeated _ => exact prefix_report _ _

/-- A dimension that is declared is not in use yet, and the draft does not know of it. -/
theorem Declares.draft_eq {id : Ident} {kind : DimKind} (h : σ.Declares id kind σ') :
    σ'.draft = σ.draft := by
  cases h <;> rfl

/-- A statement adds findings, if anything, and takes none back. -/
theorem Effect.prefix_findings {clause : Clause} (h : Effect span σ clause σ') :
    σ.findings <+: σ'.findings := by
  induction h with
  | named | widthSet | domainNone | grid => exact List.prefix_refl _
  | widthUnsupported | settingUnknown | stepSecond | dimsUnknown | gridRefused | sidesUnread
    | equation => exact prefix_report _ _
  | step _ h => exact h.prefix_findings
  | domain h _ ih => exact h.prefix_findings.trans ih
  | equationRefused => exact (prefix_report _ _).trans (prefix_report _ _)

theorem prefix_statements (stmts : List Statement) (σ : Scope) :
    σ.findings <+: (stmts.foldl statement σ).findings := by
  apply statements_induct (P := fun σ' => σ.findings <+: σ'.findings)
  · intro σ' stmt _ h
    exact h.trans (effect_statement σ' stmt).prefix_findings
  · exact List.prefix_refl _

end Scope

end Stencil.Source
