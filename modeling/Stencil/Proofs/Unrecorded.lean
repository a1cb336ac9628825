import Mathlib
import Stencil.Proofs.Statements
import Stencil.Source.FrontEnd

/-!
# Recording never matters

A draft writes its changes to a sink and never reads the sink. So each call on a draft without its
sink does what the call does on the draft, sink apart. This is said of each step that a call can
take, and calls in a row have it if each one has (`Edit.Oblivious`, `Edit.Oblivious.bind`).

Nothing that a statement does depends on the sink either: whatever a statement can lead to from a
scope, it leads to the same without the record from the scope without the record
(`Scope.Effect.unrecorded`). Therefore the front end gives the same solution and the same findings
whether its changes are recorded or not (`compileSource_unrecorded`).

To be oblivious is a property of runs and not of results: a call that read the sink and then behaved
the same would still have it. What it rules out is that the record, or a sink that is full, makes
any difference to what is accepted.
-/

namespace Stencil

/-! ## Calls on drafts -/

/-- The draft without its record. -/
def Draft.unrecorded (d : Draft) : Draft := ⟨d.solution, none⟩

namespace Edit

/-- The call answers the same with and without a record, and leaves the same, record apart. -/
def Oblivious {α : Type} (call : Edit α) : Prop :=
  ∀ d : Draft, d.unrecorded.run call = ((d.run call).1, (d.run call).2.unrecorded)

variable {α β : Type}

theorem oblivious_pure (a : α) : (pure a : Edit α).Oblivious := fun _ => rfl

theorem oblivious_throw (e : Error) : (throw e : Edit α).Oblivious := fun _ => rfl

theorem oblivious_solution : solution.Oblivious := fun _ => rfl

theorem oblivious_change (f : Solution → Solution) : (change f).Oblivious := fun _ => rfl

/-- Recording a line changes nothing apart from the sink, and a sink that is full refuses
    nothing. -/
theorem oblivious_record (line : String) : (record line).Oblivious := fun _ => rfl

theorem oblivious_ofExcept (r : Except Error α) : (ofExcept r : Edit α).Oblivious := by
  cases r with
  | ok a => exact oblivious_pure a
  | error e => exact oblivious_throw e

/-- Calls in a row are oblivious if each of them is, for the second one gets to see the first one's
    result and not its record. -/
theorem Oblivious.bind {call : Edit α} (h : call.Oblivious) {next : α → Edit β}
    (hnext : ∀ a, (next a).Oblivious) : (call >>= next).Oblivious := by
  intro d
  rw [Draft.run_bind, Draft.run_bind, h d]
  cases d.run call with
  | mk r d' =>
    cases r with
    | ok a => exact hnext a d'
    | error e => rfl

theorem oblivious_check (fault? : Solution → Option Error) : (check fault?).Oblivious := by
  refine oblivious_solution.bind fun s => ?_
  cases fault? s with
  | some e => exact oblivious_throw e
  | none => exact oblivious_pure ()

/-- Several steps in a row are oblivious if each of them is. -/
theorem oblivious_forM {f : α → Edit PUnit} (hf : ∀ x, (f x).Oblivious) (xs : List α) :
    (xs.forM f).Oblivious := by
  induction xs with
  | nil => exact oblivious_pure _
  | cons x xs ih => exact (hf x).bind fun _ => ih

/-- A declaration is checked, entered and recorded, and none of the three depends on the record. -/
theorem oblivious_declareGrid (name : String) (dims : List Dim) :
    (declareGrid name dims).Oblivious :=
  (oblivious_check _).bind fun _ => (oblivious_ofExcept _).bind fun _ =>
    (oblivious_forM (fun _ => oblivious_check _) _).bind fun _ =>
      (oblivious_forM (fun _ => oblivious_change _) _).bind fun _ =>
        (oblivious_change _).bind fun _ => (oblivious_record _).bind fun _ => oblivious_pure _

theorem oblivious_addEquation (e : Equation) : (addEquation e).Oblivious :=
  (oblivious_forM (fun _ => oblivious_check _) _).bind fun _ =>
    oblivious_solution.bind fun _ => (oblivious_record _).bind fun _ => oblivious_change _

/-- An equation is made from its sides alone, and adding it is oblivious. -/
theorem oblivious_equate (lhs : Point) (rhs : Expr) : (equate lhs rhs).Oblivious :=
  (oblivious_ofExcept _).bind fun e => (oblivious_addEquation e).bind fun _ => oblivious_pure _

theorem oblivious_setElementBytes (bytes : Nat) : (setElementBytes bytes).Oblivious := by
  unfold setElementBytes
  cases Width.ofBytes? bytes with
  | some w => exact oblivious_change _
  | none => exact oblivious_throw _

/-- A rendering is recorded first, but what it renders is the solution. -/
theorem oblivious_render (registry : Registry) (id : String) : (render registry id).Oblivious :=
  (oblivious_ofExcept _).bind fun _ => oblivious_solution.bind fun _ =>
    (oblivious_record _).bind fun _ => oblivious_ofExcept _

/-- What an oblivious call does without the record: the same answer, and the same draft but for its
    sink. -/
theorem Oblivious.run_eq {call : Edit α} (h : call.Oblivious) {d d' : Draft} {r : Except Error α}
    (hrun : d.run call = (r, d')) : d.unrecorded.run call = (r, d'.unrecorded) := by
  rw [h d, hrun]

end Edit

/-! ## Elaboration -/

namespace Source

namespace Scope

/-- The scope without the record of its draft. -/
def unrecorded (σ : Scope) : Scope := { σ with draft := σ.draft.unrecorded }

variable {σ σ' : Scope} {span : Span}

/-- A declaration has the same effect without the record, since it does not reach the draft. -/
theorem Declares.unrecorded {id : Ident} {kind : DimKind} (h : σ.Declares id kind σ') :
    σ.unrecorded.Declares id kind σ'.unrecorded := by
  cases h with
  | entered h => exact .entered h
  | repeated h => exact .repeated h

/-- **An effect is an effect without the record**, from the scope without it to the scope without
    it. -/
theorem Effect.unrecorded {clause : Clause} (h : Effect span σ clause σ') :
    Effect span σ.unrecorded clause σ'.unrecorded := by
  induction h with
  | named σ id => exact .named _ id
  | widthSet hname hvalue => exact .widthSet hname hvalue
  | widthUnsupported hname hvalue => exact .widthUnsupported hname hvalue
  | settingUnknown hname => exact .settingUnknown hname
  | step hfirst h => exact .step hfirst h.unrecorded
  | stepSecond hfirst => exact .stepSecond hfirst
  | domainNone σ => exact .domainNone _
  | domain h _ ih => exact .domain h.unrecorded ih
  | dimsUnknown hmissing => exact .dimsUnknown hmissing
  | grid hmissing hcall => exact .grid hmissing ((Edit.oblivious_declareGrid _ _).run_eq hcall)
  | gridRefused hmissing hcall =>
    exact .gridRefused hmissing ((Edit.oblivious_declareGrid _ _).run_eq hcall)
  | sidesUnread hread => exact .sidesUnread hread
  | equation hread hcall => exact .equation hread ((Edit.oblivious_equate _ _).run_eq hcall)
  | equationRefused hread hcall =>
    exact .equationRefused hread ((Edit.oblivious_equate _ _).run_eq hcall)

/-- Elaborating a statement and forgetting the record can be done in either order. -/
theorem statement_unrecorded (σ : Scope) (stmt : Statement) :
    σ.unrecorded.statement stmt = (σ.statement stmt).unrecorded :=
  (effect_statement σ stmt).unrecorded.eq_statement.symm

/-- The same for all statements of a program, by induction on how many there are. -/
theorem statements_unrecorded (stmts : List Statement) : ∀ σ : Scope,
    stmts.foldl statement σ.unrecorded = (stmts.foldl statement σ).unrecorded := by
  induction stmts with
  | nil => intro σ; rfl
  | cons stmt stmts ih =>
    intro σ
    rw [List.foldl_cons, List.foldl_cons, statement_unrecorded]
    exact ih _

end Scope

theorem Program.elaborate_unrecorded (p : Program) (log : Option Sink) :
    p.elaborate none = (p.elaborate log).unrecorded :=
  Scope.statements_unrecorded p.statements ⟨[], none, Draft.new p.header.1 log, p.header.2⟩

/-! ## The front end -/

/-- The outcome without the record. -/
def Outcome.unrecorded (o : Outcome) : Outcome := ⟨o.draft?.map .unrecorded, o.findings, none⟩

theorem Scope.outcome_unrecorded (σ : Scope) : σ.unrecorded.outcome = σ.outcome.unrecorded := by
  unfold outcome Outcome.unrecorded draft?
  rw [show σ.unrecorded.findings = σ.findings from rfl]
  split_ifs <;> rfl

/-- Overriding the width is a call on the draft like any other, made after the program has been
    elaborated. -/
theorem Outcome.override_unrecorded (o : Outcome) (span : Span) (elementBytes : Option Nat) :
    o.unrecorded.override span elementBytes = (o.override span elementBytes).unrecorded := by
  obtain ⟨draft?, findings, log⟩ := o
  cases draft? with
  | none => rfl
  | some d =>
    cases elementBytes with
    | none => rfl
    | some bytes =>
      have hset := Edit.oblivious_setElementBytes bytes d
      simp only [override, unrecorded, Option.map_some, Draft.setElementBytes, hset]
      cases d.run (Edit.setElementBytes bytes) with
      | mk r d' =>
        cases r with
        | error e => rfl
        | ok u => rfl

/-- **The front end does the same whether its changes are recorded or not.** -/
theorem compileSource_unrecorded (source : String) (elementBytes : Option Nat) (log : Option Sink) :
    compileSource source elementBytes none = (compileSource source elementBytes log).unrecorded := by
  unfold compileSource
  dsimp only
  split
  · rename_i program _ _
    rw [← Outcome.override_unrecorded, ← Scope.outcome_unrecorded, ← Program.elaborate_unrecorded]
  · rfl

end Source

end Stencil
