import Mathlib
import Stencil.Proofs.Statements
import Stencil.Proofs.Validity

/-!
# The tables of a scope

Elaboration keeps a table of the declared dimensions, and the solution that it drafts keeps one of
the dimensions in use. They are written at different times: a dimension is declared before any grid
uses it, and a rejected statement may change one of them or none. But every dimension in use is the
declared one of its name (`Scope.Consistent`), and this is kept by every statement, accepted or not
(`Consistent.effect`). So the solution never refuses a declared dimension for its kind or for being
a second step dimension (`Consistent.conflict?_eq_none`).

The draft itself is changed by calls only: what elaboration drafts is what some session of calls
leaves (`Scope.draft_statements`), and so whatever holds after every session holds of it.

This is what keeps two sets of messages apart. A program that declares a dimension twice, or two
step dimensions, hears of it from elaboration; the solution's own refusals of the same faults can be
met by callers of the model alone.
-/

namespace Stencil.Source

namespace Scope

variable {σ σ' : Scope} {span : Span} {clause : Clause}

/-! ## Names that are looked up -/

/-- A dimension that is found has the name that it was looked up by, and was declared. -/
theorem of_dim?_map {name : String} {d : Dim}
    (h : (σ.dim? name).map DeclaredDim.dim = some d) : d.name = name ∧ ∃ a ∈ σ.dims, a.dim = d := by
  obtain ⟨a, hfind, rfl⟩ := Option.map_eq_some_iff.mp h
  exact ⟨by simpa using List.find?_some hfind, a, List.mem_of_find?_eq_some hfind, rfl⟩

/-- What is found under some name is found under its own name. -/
theorem mem_found {ids : List Ident} {d : Dim} (hd : d ∈ σ.found ids) :
    (σ.dim? d.name).map DeclaredDim.dim = some d := by
  obtain ⟨id, _, hfind⟩ := List.mem_filterMap.mp hd
  rw [(of_dim?_map hfind).1]
  exact hfind

/-- Where no name is missing, all are found, in order. -/
theorem map_name_found {ids : List Ident} (hids : σ.missing ids = []) :
    (σ.found ids).map Dim.name = ids.map Ident.name := by
  have hall := List.filter_eq_nil_iff.mp hids
  clear hids
  induction ids with
  | nil => rfl
  | cons id ids ih =>
    obtain ⟨hid, hids⟩ := List.forall_mem_cons.mp hall
    obtain ⟨a, ha⟩ : ∃ a, σ.dim? id.name = some a := by
      cases hfind : σ.dim? id.name with
      | none => rw [hfind] at hid; exact absurd rfl hid
      | some a => exact ⟨a, rfl⟩
    have hfound : (σ.dim? id.name).map DeclaredDim.dim = some a.dim := by rw [ha]; rfl
    show (List.filterMap (fun id : Ident => (σ.dim? id.name).map DeclaredDim.dim) (id :: ids)).map _ = _
    rw [List.filterMap_cons_some (f := fun id : Ident => (σ.dim? id.name).map DeclaredDim.dim) hfound,
      List.map_cons, List.map_cons, (of_dim?_map hfound).1]
    exact congrArg _ (ih hids)

/-! ## Drafts are changed by calls -/

/-- **A statement makes at most one call on the draft**, and none at all if it is reported before
    the draft is asked. -/
theorem Effect.draft_after (h : Effect span σ clause σ') :
    ∃ calls, calls.length ≤ 1 ∧ σ'.draft = σ.draft.after calls := by
  induction h with
  | named | widthUnsupported | settingUnknown | stepSecond | domainNone | dimsUnknown | gridRefused
    | sidesUnread | equationRefused => exact ⟨[], Nat.zero_le 1, rfl⟩
  | step _ h => exact ⟨[], Nat.zero_le 1, h.draft_eq⟩
  | domain h _ ih =>
    rw [h.draft_eq] at ih
    exact ih
  | @widthSet σ name value valueSpan w hname hvalue =>
    refine ⟨[.setElementBytes w.bytes], Nat.le_refl 1, ?_⟩
    have hset := (Draft.setElementBytes_eq_ok_iff (d := σ.draft) (u := ())).mpr
      ⟨w, (ofBytes?_eq_some_iff w.bytes w).mpr rfl, rfl⟩
    show _ = (σ.draft.perform (.setElementBytes w.bytes)).2
    rw [Draft.perform_setElementBytes, hset]
  | @grid σ name dims g draft hmissing hcall =>
    refine ⟨[.declareGrid name.name (σ.found dims)], Nat.le_refl 1, ?_⟩
    show _ = (σ.draft.perform (.declareGrid name.name (σ.found dims))).2
    rw [Draft.perform_declareGrid, hcall]
  | @equation σ lhs rhs l r e draft hread hcall =>
    refine ⟨[.equate l r], Nat.le_refl 1, ?_⟩
    show _ = (σ.draft.perform (.equate l r)).2
    rw [Draft.perform_equate, hcall]

/-- **What elaboration drafts is what a session leaves**, of no more calls than there are
    statements, from the draft it starts with. -/
theorem draft_statements (stmts : List Statement) : ∀ σ : Scope,
    ∃ calls, calls.length ≤ stmts.length
      ∧ (stmts.foldl statement σ).draft = σ.draft.after calls := by
  induction stmts with
  | nil => exact fun σ => ⟨[], Nat.le_refl 0, rfl⟩
  | cons stmt stmts ih =>
    intro σ
    obtain ⟨first, hfirst, hdraft⟩ := (effect_statement σ stmt).draft_after
    obtain ⟨rest, hrest, hdrafts⟩ := ih (σ.statement stmt)
    refine ⟨first ++ rest, ?_, ?_⟩
    · rw [List.length_append, List.length_cons]
      omega
    · rw [List.foldl_cons, hdrafts, hdraft, Draft.after, Draft.after, Draft.after,
        List.foldl_append]

/-- What every call does to the solution, a statement does. -/
theorem Effect.change (h : Effect span σ clause σ') :
    σ.draft.solution.Change σ'.draft.solution := by
  obtain ⟨calls, hlength, hdraft⟩ := h.draft_after
  rw [hdraft]
  match calls, hlength with
  | [], _ => exact .nothing
  | [c], _ => exact σ.draft.perform_change c

/-- The solution keeps the name it was drafted under, whatever the statements say. -/
theorem name_statements (stmts : List Statement) (σ : Scope) :
    (stmts.foldl statement σ).draft.solution.name = σ.draft.solution.name := by
  obtain ⟨calls, _, hdraft⟩ := draft_statements stmts σ
  rw [hdraft]
  exact Draft.name_after σ.draft calls

/-! ## The two tables -/

/-- **The declared dimensions and those in use go together**: each one in use is the declared one of
    its name, and at most one of those declared is a step dimension. -/
structure Consistent (σ : Scope) : Prop where
  valid : σ.draft.solution.Valid
  table : ∀ d ∈ σ.draft.solution.dims, (σ.dim? d.name).map DeclaredDim.dim = some d
  noStep : σ.step = none → ∀ a ∈ σ.dims, a.dim.isStep = false
  oneStep : ∀ a ∈ σ.dims, ∀ b ∈ σ.dims, a.dim.isStep = true → b.dim.isStep = true → a.dim = b.dim

/-- A scope without declarations is consistent: nothing is in use, so that nothing can be in use
    wrongly. -/
theorem consistent_start (name : String) (log : Option Sink) (findings : List Finding) :
    (⟨[], none, Draft.new name log, findings⟩ : Scope).Consistent where
  valid := Solution.valid_new name
  table := List.forall_mem_nil _
  noStep := fun _ => List.forall_mem_nil _
  oneStep := List.forall_mem_nil _

/-- What is reported does not concern the tables. -/
theorem Consistent.report (h : σ.Consistent) (fs : List Finding) : (σ.report fs).Consistent :=
  ⟨h.valid, h.table, h.noStep, h.oneStep⟩

/-- Any draft can be put in place whose dimensions in use are declared, since the declarations
    stay. -/
theorem Consistent.withDraft (h : σ.Consistent) {draft : Draft} (hvalid : draft.solution.Valid)
    (htable : ∀ d ∈ draft.solution.dims, (σ.dim? d.name).map DeclaredDim.dim = some d) :
    ({ σ with draft := draft } : Scope).Consistent :=
  ⟨hvalid, htable, h.noStep, h.oneStep⟩

/-- **A declared dimension is never refused by the solution**, neither for its kind nor for being a
    second step dimension. -/
theorem Consistent.conflict?_eq_none (h : σ.Consistent) (grid : String) {d : Dim} {name : String}
    (hd : (σ.dim? name).map DeclaredDim.dim = some d) :
    σ.draft.solution.conflict? grid d = none := by
  obtain ⟨rfl, a, ha, hdim⟩ := of_dim?_map hd
  have hsame : ∀ d' ∈ σ.draft.solution.dims, d'.name = d.name → d' = d := by
    intro d' hd' hname
    have hfound := h.table d' hd'
    rw [hname, hd] at hfound
    exact (Option.some.inj hfound).symm
  rw [Solution.conflict?_eq_none_iff h.valid.coherent_dims]
  refine ⟨fun d' hd' hname => by rw [hsame d' hd' hname], fun hstep hnew d' hd' => ?_⟩
  -- a step dimension in use would be the declared one, which is this one
  by_contra hstep'
  rw [Bool.not_eq_false] at hstep'
  obtain ⟨_, b, hb, rfl⟩ := of_dim?_map (h.table d' hd')
  have heq := h.oneStep b hb a ha hstep' (hdim ▸ hstep)
  exact hnew _ hd' (by rw [heq, hdim])

/-- A dimension that is declared has a new name, and is the first step dimension if it is one. -/
theorem Consistent.withDim (h : σ.Consistent) (id : Ident) {kind : DimKind}
    (hkind : kind = .step → σ.step = none) : (σ.withDim id kind).Consistent := by
  refine ⟨h.valid, ?_, ?_, ?_⟩
  · -- what was found before is found before the new one
    intro d hd
    obtain ⟨a, ha, hdim⟩ := Option.map_eq_some_iff.mp (h.table d hd)
    show ((σ.dims ++ [_]).find? fun a : DeclaredDim => a.dim.name == d.name).map _ = some d
    rw [List.find?_append, show (σ.dims.find? fun a => a.dim.name == d.name) = some a from ha]
    exact congrArg some hdim
  · intro hstep a ha
    have hdomain : kind ≠ .step := by
      intro hkind
      simp [Scope.withDim, hkind] at hstep
    rcases List.mem_append.mp ha with ha | ha
    · simp only [Scope.withDim, if_neg hdomain] at hstep
      exact h.noStep hstep a ha
    · rw [List.mem_singleton.mp ha]
      exact beq_false_of_ne hdomain
  -- a new step dimension is the only one there is; a new domain dimension is none of those compared
  · by_cases hstep : kind = .step
    · have hold := h.noStep (hkind hstep)
      intro a ha b hb hastep hbstep
      have hlast : ∀ c ∈ σ.dims ++ [(⟨⟨id.name, kind⟩, id.span⟩ : DeclaredDim)],
          c.dim.isStep = true → c = ⟨⟨id.name, kind⟩, id.span⟩ := by
        intro c hc hcstep
        rcases List.mem_append.mp hc with hc | hc
        · rw [hold c hc] at hcstep
          cases hcstep
        · exact List.mem_singleton.mp hc
      rw [hlast a ha hastep, hlast b hb hbstep]
    · intro a ha b hb hastep hbstep
      have hold : ∀ c ∈ σ.dims ++ [(⟨⟨id.name, kind⟩, id.span⟩ : DeclaredDim)],
          c.dim.isStep = true → c ∈ σ.dims := by
        intro c hc hcstep
        rcases List.mem_append.mp hc with hc | hc
        · exact hc
        · rw [List.mem_singleton.mp hc] at hcstep
          exact absurd (eq_of_beq hcstep) hstep
      exact h.oneStep a (hold a ha hastep) b (hold b hb hbstep) hastep hbstep

/-- A declaration keeps the tables consistent if it is no second step dimension; one that is
    reported changes no table. -/
theorem Consistent.declares (h : σ.Consistent) {id : Ident} {kind : DimKind}
    (hkind : kind = .step → σ.step = none) (hdecl : σ.Declares id kind σ') : σ'.Consistent := by
  cases hdecl with
  | entered _ => exact h.withDim id hkind
  | repeated _ => exact h.report _

/-- **Every statement keeps the tables consistent**, whether it is taken over or reported. -/
theorem Consistent.effect (h : σ.Consistent) (heffect : Effect span σ clause σ') :
    σ'.Consistent := by
  induction heffect with
  | named | domainNone => exact h
  | widthUnsupported | settingUnknown | stepSecond | dimsUnknown | gridRefused | sidesUnread =>
    exact h.report _
  | equationRefused => exact (h.report _).report _
  | step hfirst hdecl => exact h.declares (fun _ => hfirst) hdecl
  | domain hdecl _ ih => exact ih (h.declares (fun hkind => by cases hkind) hdecl)
  | widthSet _ _ => exact h.withDraft (h.valid.withWidth _) h.table
  | @grid σ name dims g draft hmissing hcall =>
    have heffect : Effect span σ (.grid name dims) _ := .grid hmissing hcall
    have hvalid := h.valid.change heffect.change
    refine h.withDraft hvalid fun d hd => ?_
    obtain ⟨g', hg', hd'⟩ := hvalid.mem_dims.mp hd
    obtain ⟨_, hmake, _, rfl⟩ := Draft.declareGrid_eq_ok_iff.mp hcall
    -- a new grid brings dimensions that were declared
    rcases List.mem_append.mp hg' with hg' | hg'
    · exact h.table d (h.valid.mem_dims.mpr ⟨g', hg', hd'⟩)
    · rw [List.mem_singleton.mp hg', (Grid.make_eq_ok_iff.mp hmake).2] at hd'
      exact mem_found hd'
  | @equation σ lhs rhs l r e draft hread hcall =>
    have heffect : Effect span σ (.equation lhs rhs) _ := .equation hread hcall
    have hvalid := h.valid.change heffect.change
    obtain ⟨_, _, hadd⟩ := Draft.equate_eq_ok_iff.mp hcall
    obtain ⟨_, rfl⟩ := Draft.addEquation_eq_ok_iff.mp hadd
    exact (h.report _).withDraft hvalid h.table

end Scope

end Stencil.Source
