import Mathlib
import Stencil.Compile
import Stencil.Proofs.FrontEnd

/-!
# Which refusals of the model a text can cause

The model checks what it is asked to do, and so does elaboration before it asks. What the second check
finds is reported in the words of the source; what only the first one finds is a refusal of the model,
reported with a code of its own. This module says which refusals are left for the model.

They are few, because the tables of elaboration and of the solution go together
(`Scope.Consistent`): a dimension that was looked up never conflicts with those in use, and the
solution owns every point that was looked up in it. What is left are the refusals that a statement
causes by itself (`Statement.Refused`), and widths that are not supported
(`model_refusals_caused`). They are found by going through what a statement can do
(`Scope.Effect`), and each is traced back to what the statement says.
-/

namespace Stencil

/-! ## Refusals of grids and equations -/

/-- Dimensions that follow dimensions with the names `seen`, all with proper names, are refused
    because of one that is repeated or a step dimension that is not the first. -/
theorem dimFault?_cases {grid : String} {e : Error} (dims : List Dim)
    (hnames : ∀ d ∈ dims, IsIdentifier d.name) :
    ∀ seen, dimFault? grid seen dims = some e →
      (∃ dim, e = .invalidDimensions grid (.repeated dim)
          ∧ 2 ≤ (seen ++ dims.map Dim.name).count dim)
        ∨ ∃ dim, e = .invalidDimensions grid (.stepNotFirst dim)
          ∧ dim ∈ (seen ++ dims.map Dim.name).tail := by
  induction dims with
  | nil =>
    intro seen h
    cases h
  | cons d ds ih =>
    intro seen h
    obtain ⟨hname, hnames⟩ := List.forall_mem_cons.mp hnames
    rw [dimFault?, (isIdentifier_iff d.name).mpr hname, Bool.not_true,
      if_neg Bool.false_ne_true] at h
    split_ifs at h with hseen hstep
    · refine Or.inl ⟨d.name, (Option.some.inj h).symm, ?_⟩
      have hbefore := List.count_pos_iff.mpr hseen
      rw [List.count_append, List.map_cons, List.count_cons_self]
      omega
    · refine Or.inr ⟨d.name, (Option.some.inj h).symm, ?_⟩
      have hne : seen ≠ [] := by
        intro hnil
        simp [hnil] at hstep
      rw [List.tail_append_of_ne_nil hne]
      exact List.mem_append_right _ List.mem_cons_self
    -- the dimension is in order and counts as seen from now on
    · have hlater := ih hnames (seen ++ [d.name]) h
      rwa [List.append_assoc] at hlater

/-- A proper name and dimensions with proper names are refused because there is no dimension, or
    because of one that is repeated or a step dimension that is not the first. -/
theorem Grid.fault?_cases {name : String} {dims : List Dim} {e : Error} (hname : IsIdentifier name)
    (hnames : ∀ d ∈ dims, IsIdentifier d.name) (h : Grid.fault? name dims = some e) :
    (e = .arity name 1 0 ∧ dims = [])
      ∨ (∃ dim, e = .invalidDimensions name (.repeated dim) ∧ 2 ≤ (dims.map Dim.name).count dim)
      ∨ ∃ dim, e = .invalidDimensions name (.stepNotFirst dim)
          ∧ dim ∈ (dims.map Dim.name).tail := by
  rw [Grid.fault?, (isIdentifier_iff name).mpr hname, Bool.not_true, if_neg Bool.false_ne_true] at h
  split_ifs at h with hempty
  · exact Or.inl ⟨(Option.some.inj h).symm, List.isEmpty_iff.mp hempty⟩
  · exact Or.inr (dimFault?_cases dims hnames [] h)

namespace Source

/-! ## What findings come from -/

/-- The refusal of the model that a problem comes from, if it comes from one. A setting is refused
    by the model if its value is a natural number. -/
def Problem.refusal? : Problem → Option Error
  | .model e => some e
  | .unsupportedOverride e => some e
  | .unsupportedSetting v => (v.toInt?.filter (0 ≤ ·)).map fun n => .unsupportedWidth n.toNat
  | _ => none

/-- **What a statement is refused for by the model**: the finding and its code. A grid has a name
    that is taken, no dimension, a dimension that is listed twice, or a step dimension that is not
    the first; or the two sides of an equation do not follow each other in time. -/
inductive Statement.Refused : Statement → Finding → String → Prop where
  | repeatedGrid (name : Ident) (dims : List Ident) (span : Span) (solution : String) :
    Refused ⟨.grid name dims, span⟩ ⟨.model (.duplicateName name.name solution), name.span⟩ "E0121"
  | noDimension (name : Ident) (span : Span) :
    Refused ⟨.grid name [], span⟩ ⟨.model (.arity name.name 1 0), name.span⟩ "E0122"
  | repeatedDim (name : Ident) (dims : List Ident) (span : Span) (dim : String)
    (h : 2 ≤ (dims.map Ident.name).count dim) :
    Refused ⟨.grid name dims, span⟩
      ⟨.model (.invalidDimensions name.name (.repeated dim)), name.span⟩ "E0122"
  | stepNotFirst (name : Ident) (dims : List Ident) (span : Span) (dim : String)
    (h : dim ∈ (dims.map Ident.name).tail) :
    Refused ⟨.grid name dims, span⟩
      ⟨.model (.invalidDimensions name.name (.stepNotFirst dim)), name.span⟩ "E0122"
  | causality (lhs : Point) (rhs : Expr) (span : Span) (text : String) (fault : CausalityFault) :
    Refused ⟨.equation lhs rhs, span⟩ ⟨.model (.causality text fault), span⟩ "E0140"

theorem Statement.Refused.code {stmt : Statement} {f : Finding} {code : String}
    (h : stmt.Refused f code) : f.diagnostic.code = some code := by
  cases h <;> rfl

/-- The finding comes from a width of neither four nor eight bytes. -/
def Finding.OfWidth (f : Finding) : Prop :=
  ∃ bytes, f.problem.refusal? = some (.unsupportedWidth bytes) ∧ bytes ≠ 4 ∧ bytes ≠ 8
    ∧ f.diagnostic.code = some "E0103"

/-- The finding comes from no refusal of the model, from one that a statement causes, or from a
    width. -/
def Finding.Explained (stmts : List Statement) (f : Finding) : Prop :=
  f.problem.refusal? = none
    ∨ (∃ stmt ∈ stmts, ∃ code, stmt.Refused f code ∧ f.diagnostic.code = some code)
    ∨ f.OfWidth

/-- No finding that is explained has the code of another refusal of the model. -/
theorem Finding.Explained.code_ne {stmts : List Statement} {f : Finding} (h : f.Explained stmts) :
    f.diagnostic.code ≠ some "E0141" ∧ f.diagnostic.code ≠ some "E0199" := by
  rcases h with h | ⟨stmt, _, code, h, hcode⟩ | ⟨_, _, _, _, hcode⟩
  · obtain ⟨problem, span⟩ := f
    cases problem with
    | model e => cases h
    | stray | unexpected | missingSolution | repeatedSolution | unknownSetting | unsupportedSetting
      | unsupportedOverride | repeatedDim | secondStep | unknownDim | unknownGrid | misnamedIndex
      | indexCount | badOffset => simp [Finding.diagnostic, Problem.code]
  · rw [hcode]
    cases h <;> decide
  · rw [hcode]
    decide

/-! ## Points -/

theorem refusal?_indexFindings (g : Grid) (position : Nat) (i : Index) (d : Dim) :
    ∀ f ∈ indexFindings g position i d, f.problem.refusal? = none := by
  unfold indexFindings
  refine List.forall_mem_append.mpr ⟨?_, ?_⟩
  · split_ifs
    · exact List.forall_mem_nil _
    · exact List.forall_mem_singleton.mpr rfl
  · split_ifs
    · exact List.forall_mem_nil _
    · exact List.forall_mem_singleton.mpr rfl

theorem refusal?_indicesFindings (g : Grid) (is : List Index) :
    ∀ position ds, ∀ f ∈ indicesFindings g position is ds, f.problem.refusal? = none := by
  induction is with
  | nil =>
    intro position ds
    exact List.forall_mem_nil _
  | cons i is ih =>
    intro position ds
    cases ds with
    | nil => exact List.forall_mem_nil _
    | cons d ds =>
      exact List.forall_mem_append.mpr
        ⟨refusal?_indexFindings g position i d, ih (position + 1) ds⟩

/-- As many indices as a grid has dimensions are never refused by the grid. -/
theorem refusal?_elaborateIndices {g : Grid} {p : Point} (hlen : p.indices.length = g.dims.length) :
    ∀ f ∈ (elaborateIndices g p).findings, f.problem.refusal? = none := by
  cases hfound : indicesFindings g 0 p.indices g.dims with
  | cons f fs =>
    have hfindings : (elaborateIndices g p).findings = f :: fs := by
      rw [elaborateIndices, hfound]
      rfl
    rw [hfindings, ← hfound]
    exact refusal?_indicesFindings g p.indices 0 g.dims
  | nil =>
    obtain ⟨hdims, hoffsets⟩ := (indicesFindings_eq_nil_iff g p.indices 0 g.dims hlen).mp hfound
    have hread := forall₂_filterMap_offsets hoffsets
    -- all offsets are read, so there are as many as dimensions
    have hnil := (elaborateIndices_decides g p hlen).findings.mpr
      ⟨⟨g, _, hread.length_eq.symm.trans hlen⟩, rfl, hdims, hread⟩
    rw [hnil]
    exact List.forall_mem_nil _

theorem refusal?_elaboratePoint (s : Solution) (p : Point) :
    ∀ f ∈ (elaboratePoint s p).findings, f.problem.refusal? = none := by
  unfold elaboratePoint
  cases s.grid? p.grid.name with
  | none => exact List.forall_mem_singleton.mpr rfl
  | some g =>
    by_cases hlen : p.indices.length = g.dims.length
    · simp only [if_pos hlen]
      exact refusal?_elaborateIndices hlen
    · simp only [if_neg hlen]
      exact List.forall_mem_singleton.mpr rfl

theorem refusal?_elaborateExpr (s : Solution) (e : Expr) :
    ∀ f ∈ (elaborateExpr s e).findings, f.problem.refusal? = none := by
  fun_induction elaborateExpr s e with
  | case1 v span => exact List.forall_mem_nil _
  | case2 p => exact refusal?_elaboratePoint s p
  | case3 v inner span => exact List.forall_mem_nil _
  | case4 e span hnumber ih => exact ih
  | case5 op lhs rhs span ihl ihr => exact List.forall_mem_append.mpr ⟨ihl, ihr⟩

theorem refusal?_sides (s : Solution) (lhs : Point) (rhs : Expr) :
    ∀ f ∈ (sides s lhs rhs).findings, f.problem.refusal? = none :=
  List.forall_mem_append.mpr ⟨refusal?_elaboratePoint s lhs, refusal?_elaborateExpr s rhs⟩

namespace Scope

variable {σ σ' : Scope} {span : Span}

/-! ## Findings -/

/-- All that was found is explained by the statements. -/
def Explained (stmts : List Statement) (σ : Scope) : Prop := ∀ f ∈ σ.findings, f.Explained stmts

variable {stmts : List Statement}

theorem Explained.report (h : σ.Explained stmts) {fs : List Finding}
    (hfs : ∀ f ∈ fs, f.problem.refusal? = none) : (σ.report fs).Explained stmts :=
  List.forall_mem_append.mpr ⟨h, fun f hf => Or.inl (hfs f hf)⟩

/-- One more finding that does not concern the model. -/
theorem Explained.report_one (h : σ.Explained stmts) {f : Finding}
    (hf : f.problem.refusal? = none) : (σ.report [f]).Explained stmts :=
  h.report (List.forall_mem_singleton.mpr hf)

/-- One more finding, of a refusal that a statement causes. -/
theorem Explained.report_refused (h : σ.Explained stmts) {f : Finding}
    (hrefused : ∃ stmt ∈ stmts, ∃ code, stmt.Refused f code) : (σ.report [f]).Explained stmts := by
  obtain ⟨stmt, hstmt, code, hrefused⟩ := hrefused
  refine List.forall_mem_append.mpr ⟨h, List.forall_mem_singleton.mpr (Or.inr (Or.inl ?_))⟩
  exact ⟨stmt, hstmt, code, hrefused, hrefused.code⟩

theorem Explained.declares (h : σ.Explained stmts) {id : Ident} {kind : DimKind}
    (hdecl : σ.Declares id kind σ') : σ'.Explained stmts := by
  cases hdecl with
  | entered _ => exact h
  | repeated _ => exact h.report_one rfl

/-- A width that a setting asks for is refused if it is neither four nor eight. -/
theorem Explained.unsupported (h : σ.Explained stmts) {value : Double}
    (hvalue : ∀ w : Width, ¬ value.IsInt w.bytes) (span : Span) :
    (σ.report [⟨.unsupportedSetting value, span⟩]).Explained stmts := by
  cases hrefusal : (Problem.unsupportedSetting value).refusal? with
  | none => exact h.report_one hrefusal
  | some e =>
    obtain ⟨n, hn, rfl⟩ := Option.map_eq_some_iff.mp hrefusal
    obtain ⟨hint, hpos⟩ := Option.filter_eq_some_iff.mp hn
    have hint := (Double.toInt?_eq_some_iff value n).mp hint
    have hpos := of_decide_eq_true hpos
    -- four and eight are the widths
    have hother : ∀ w : Width, n.toNat ≠ w.bytes := by
      intro w hw
      refine hvalue w ?_
      rwa [← hw, Int.toNat_of_nonneg hpos]
    refine List.forall_mem_append.mpr ⟨h, List.forall_mem_singleton.mpr (Or.inr (Or.inr ?_))⟩
    exact ⟨n.toNat, hrefusal, hother .single, hother .double, rfl⟩

/-- **Declaring a grid is refused for what the statement says alone.** -/
theorem Consistent.refused_grid (hσ : σ.Consistent) {name : Ident} {dims : List Ident}
    (hname : IsIdentifier name.name) (hdims : ∀ id ∈ dims, IsIdentifier id.name)
    (hmissing : σ.missing dims = []) {e : Error} {draft : Draft}
    (hcall : σ.draft.declareGrid name.name (σ.found dims) = (.error e, draft)) :
    ∃ code, Statement.Refused ⟨.grid name dims, span⟩ ⟨.model e, name.span⟩ code := by
  have hnames := map_name_found hmissing
  have hfoundNames : ∀ d ∈ σ.found dims, IsIdentifier d.name := by
    intro d hd
    obtain ⟨id, hid, heq⟩ := List.mem_map.mp (hnames ▸ List.mem_map_of_mem hd)
    exact heq ▸ hdims id hid
  -- three reasons of the model: the name is taken, the grid is not well formed, a dimension
  -- conflicts
  obtain ⟨_, rfl | hfault | ⟨d, hd, hconflict⟩⟩ := Draft.declareGrid_refused hcall
  · exact ⟨_, .repeatedGrid name dims span _⟩
  · rcases Grid.fault?_cases hname hfoundNames hfault with ⟨rfl, hnil⟩ | ⟨dim, rfl, hdim⟩
      | ⟨dim, rfl, hdim⟩
    · rw [hnil, List.map_nil, eq_comm, List.map_eq_nil_iff] at hnames
      rw [hnames]
      exact ⟨_, .noDimension name span⟩
    · exact ⟨_, .repeatedDim name dims span dim (hnames ▸ hdim)⟩
    · exact ⟨_, .stepNotFirst name dims span dim (hnames ▸ hdim)⟩
  · -- the dimensions were declared, so they cannot conflict
    rw [hσ.conflict?_eq_none _ (mem_found hd)] at hconflict
    cases hconflict

/-- **An equation is refused by the model for its steps alone.** -/
theorem Consistent.refused_equation (hσ : σ.Consistent) {lhs : Point} {rhs : Expr}
    {l : Stencil.Point} {r : Stencil.Expr} {e : Error} {draft : Draft}
    (hread : (sides σ.draft.solution lhs rhs).value? = some (l, r))
    (hcall : σ.draft.equate l r = (.error e, draft)) :
    ∃ code, Statement.Refused ⟨.equation lhs rhs, span⟩ ⟨.model e, span⟩ code := by
  have hsides := (elaboratePoint_decides hσ.valid lhs).both (elaborateExpr_decides hσ.valid rhs)
    Prod.mk
  obtain ⟨l', r', hl, hr, heq⟩ := (hsides.value (l, r)).mp hread
  obtain ⟨rfl, rfl⟩ := Prod.mk.inj heq
  obtain ⟨_, hfault | ⟨_, p, hp, hnot, _⟩⟩ := Draft.equate_refused hcall
  · obtain ⟨fault, _, rfl⟩ := Option.map_eq_some_iff.mp hfault
    exact ⟨_, .causality lhs rhs span _ fault⟩
  · -- the points were looked up in the solution, so it owns them
    rw [owns_of_means hσ.valid hl hr p hp] at hnot
    cases hnot

/-- **What a statement is refused for is what it says.** -/
theorem Consistent.explained_effect {clause : Clause} (hσ : σ.Consistent) (h : σ.Explained stmts)
    (hstmt : ∀ f code, Statement.Refused ⟨clause, span⟩ f code →
      ∃ stmt ∈ stmts, ∃ code, stmt.Refused f code)
    (hspelled : ∀ g ∈ (Declared.ofClause clause).grids, g.Spelled)
    (heffect : Effect span σ clause σ') : σ'.Explained stmts := by
  induction heffect with
  | named | widthSet | domainNone | grid => exact h
  | widthUnsupported _ hvalue => exact h.unsupported hvalue _
  | settingUnknown | stepSecond => exact h.report_one rfl
  | step _ hdecl => exact h.declares hdecl
  | domain hdecl _ ih =>
    refine ih (hσ.declares (by simp) hdecl) (h.declares hdecl) ?_ (List.forall_mem_nil _)
    -- no declaration of dimensions is refused by the model
    rintro _ _ ⟨⟩
  | dimsUnknown => exact h.report (List.forall_mem_map.mpr fun _ _ => rfl)
  | @gridRefused σ name dims e hmissing hcall =>
    obtain ⟨hname, hdims⟩ := hspelled _ List.mem_cons_self
    have hdims : ∀ id ∈ dims, IsIdentifier id.name := fun id hid =>
      hdims _ (List.mem_map_of_mem hid)
    obtain ⟨code, hrefused⟩ := hσ.refused_grid hname hdims hmissing hcall
    exact h.report_refused (hstmt _ code hrefused)
  | sidesUnread => exact h.report (refusal?_sides _ _ _)
  | equation => exact h.report (refusal?_sides _ _ _)
  | equationRefused hread hcall =>
    obtain ⟨code, hrefused⟩ := hσ.refused_equation hread hcall
    exact (h.report (refusal?_sides _ _ _)).report_refused (hstmt _ code hrefused)

/-- Statements keep the tables consistent and the findings explained. -/
theorem Consistent.statements (later : List Statement) {σ : Scope} (hσ : σ.Consistent)
    (h : σ.Explained stmts) (hsub : later ⊆ stmts)
    (hspelled : ∀ stmt ∈ later, ∀ g ∈ (Declared.ofClause stmt.clause).grids, g.Spelled) :
    (later.foldl Scope.statement σ).Consistent
      ∧ (later.foldl Scope.statement σ).Explained stmts := by
  apply statements_induct (P := fun σ => σ.Consistent ∧ σ.Explained stmts)
  · rintro σ stmt hstmt ⟨hσ, h⟩
    have heffect := effect_statement σ stmt
    refine ⟨hσ.effect heffect, hσ.explained_effect h ?_ (hspelled stmt hstmt) heffect⟩
    exact fun _ code hrefused => ⟨stmt, hsub hstmt, code, hrefused⟩
  · exact ⟨hσ, h⟩

end Scope

/-! ## Programs and texts -/

/-- The scope after some statements at the beginning of a program. -/
def Program.scopeAfter (p : Program) (stmts : List Statement) (log : Option Sink) : Scope :=
  stmts.foldl Scope.statement ⟨[], none, Draft.new p.header.1 log, p.header.2⟩

/-- How the solution is named does not concern the model. -/
theorem Program.refusal?_header (p : Program) : ∀ f ∈ p.header.2, f.problem.refusal? = none := by
  unfold Program.header
  cases p.solutionNames with
  | nil => exact List.forall_mem_singleton.mpr rfl
  | cons first others => exact List.forall_mem_map.mpr fun _ _ => rfl

/-- **After any statements of a program** the tables are consistent and the findings explained. -/
theorem Program.scopeAfter_sound {p : Program} (hspelled : p.Spelled)
    {before after : List Statement}
    (hsplit : p.statements = before ++ after) (log : Option Sink) :
    (p.scopeAfter before log).Consistent ∧ (p.scopeAfter before log).Explained before := by
  refine Scope.Consistent.statements before (Scope.consistent_start p.header.1 log p.header.2) ?_
    (List.Subset.refl _) fun stmt hstmt => ?_
  · exact fun f hf => Or.inl (p.refusal?_header f hf)
  · exact hspelled stmt (hsplit ▸ List.mem_append_left _ hstmt)

/-- A width asked for from outside adds a finding about a width, if any. -/
theorem mem_override {o : Outcome} {span : Span} {elementBytes : Option Nat} {f : Finding}
    (hf : f ∈ (o.override span elementBytes).findings) : f ∈ o.findings ∨ f.OfWidth := by
  unfold Outcome.override at hf
  split at hf
  · rename_i draft bytes _
    cases hset : draft.setElementBytes bytes with
    | mk r draft' =>
      cases r with
      | ok u =>
        simp only [hset] at hf
        exact Or.inl hf
      | error e =>
        simp only [hset] at hf
        rcases List.mem_append.mp hf with hf | hf
        · exact Or.inl hf
        · obtain rfl := List.mem_singleton.mp hf
          obtain ⟨_, rfl, hnone⟩ := Draft.setElementBytes_refused hset
          have hother := (ofBytes?_eq_none_iff bytes).mp hnone
          exact Or.inr ⟨bytes, rfl, (hother .single).symm, (hother .double).symm, rfl⟩
  · exact Or.inl hf

/-- What is found in parsing does not concern the model. -/
theorem refusal?_parseText (source : String) :
    ∀ f ∈ (parseText source).findings, f.problem.refusal? = none := by
  have hstrays : ∀ f ∈ (scan source).strays.map fun s => (⟨.stray s, s.span⟩ : Finding),
      f.problem.refusal? = none := List.forall_mem_map.mpr fun _ _ => rfl
  cases hparse : parse source.utf8ByteSize (scan source).lexemes with
  | ok program =>
    rw [parseText_of_ok hparse]
    exact hstrays
  | error e =>
    rw [parseText_of_error hparse]
    exact List.forall_mem_append.mpr ⟨hstrays, List.forall_mem_singleton.mpr rfl⟩

/-- The statements of a text, none if it is no program. -/
def statementsOf (source : String) : List Statement :=
  ((parseText source).program?.map Program.statements).getD []

/-- **What the front end finds** is explained by the statements of the text. -/
theorem explained_compileSource (source : String) (elementBytes : Option Nat) (log : Option Sink) :
    ∀ f ∈ (compileSource source elementBytes log).findings, f.Explained (statementsOf source) := by
  intro f hf
  by_cases hfindings : (parseText source).findings = []
  · unfold compileSource at hf
    cases hprogram : (parseText source).program? with
    | none =>
      simp only [hprogram, hfindings] at hf
      exact absurd hf List.not_mem_nil
    | some program =>
      simp only [hprogram, hfindings] at hf
      rw [statementsOf, hprogram]
      rcases mem_override hf with hf | hf
      · have hspelled := Program.spelled_of_parseText hprogram
        have hall := (List.append_nil program.statements).symm
        exact (Program.scopeAfter_sound hspelled hall log).2 f hf
      · exact Or.inr (Or.inr hf)
  · rw [compileSource_of_findings hfindings] at hf
    exact Or.inl (refusal?_parseText source f hf)

/-- **Which refusals of the model a text can cause.** For every text, every width asked for from
    outside and every sink, a diagnostic comes from no refusal of the model, or from one of these: a
    grid whose name is taken (E0121); a grid without dimensions, with a dimension that is listed
    twice or with a step dimension that is not the first (E0122); an equation whose sides do not
    follow each other in time (E0140); or a width of neither four nor eight bytes, set in the text
    or asked for from outside (E0103). There is no diagnostic with one of the codes E0141 and E0199.
    After any number of statements, accepted or not, every dimension in use is the declared one of
    its name, and what has been found is explained by these statements. -/
theorem model_refusals_caused (source : String) (options : CompileOptions) (log : Option Sink) :
    let o := compileSource source options.elementBytes log
    (∀ f ∈ o.findings, f.Explained (statementsOf source))
    ∧ (∀ d ∈ o.diagnostics, d.code ≠ some "E0141" ∧ d.code ≠ some "E0199")
    ∧ ∀ program, (parseText source).program? = some program →
        ∀ before after, program.statements = before ++ after →
          let σ := program.scopeAfter before log
          (∀ d ∈ σ.draft.solution.dims, (σ.dim? d.name).map DeclaredDim.dim = some d)
            ∧ σ.Explained before := by
  intro o
  have hexplained := explained_compileSource source options.elementBytes log
  refine ⟨hexplained, ?_, ?_⟩
  · intro d hd
    obtain ⟨f, hf, rfl⟩ := List.mem_map.mp hd
    exact (hexplained f hf).code_ne
  · intro program hprogram before after hsplit
    have hspelled := Program.spelled_of_parseText hprogram
    obtain ⟨hconsistent, hfindings⟩ := Program.scopeAfter_sound hspelled hsplit log
    exact ⟨hconsistent.table, hfindings⟩

/-- A text in which every statement after the third one is refused, with the tables after the last.
    -/
theorem model_refusals_caused_rejected :
    let source :=
      "step t; domain x; grid u(t, x); grid u(x); grid v(); grid w(x, t); u(t,x) = u(t,x);"
    let codes := ["E0100", "E0121", "E0122", "E0122", "E0140"].map some
    (compileSource source none none).diagnostics.map Diagnostic.code = codes
      ∧ ∃ program, (parseText source).program? = some program
        ∧ (program.scopeAfter program.statements none).draft.solution.dims
          = [⟨"t", .step⟩, ⟨"x", .domain⟩]
        ∧ ((program.scopeAfter program.statements none).dim? "x").map DeclaredDim.dim
          = some ⟨"x", .domain⟩ := by
  intro source codes
  have hdims : (parseText source).program?.map
      (fun program => (program.scopeAfter program.statements none).draft.solution.dims)
        = some [⟨"t", .step⟩, ⟨"x", .domain⟩] := by decide +kernel
  obtain ⟨program, hprogram, hdims⟩ := Option.map_eq_some_iff.mp hdims
  obtain ⟨_, _, hscopes⟩ := model_refusals_caused source ⟨none, true⟩ none
  obtain ⟨htable, _⟩ := hscopes program hprogram program.statements [] (List.append_nil _).symm
  refine ⟨by decide +kernel, program, hprogram, hdims, htable ⟨"x", .domain⟩ ?_⟩
  rw [hdims]
  decide

/-- **A refusal that no statement causes.** A width of three bytes, asked for from outside, is
    refused by the model, and the refusal is reported with its message. -/
theorem width_refusal_reported :
    ∃ f ∈ (compileSource "solution s; step t;" (some 3) none).findings,
      f.problem.refusal? = some (.unsupportedWidth 3)
        ∧ f.diagnostic.code = some "E0103"
        ∧ f.diagnostic.message
          = "--element-bytes: unsupported element width 3 bytes (expected 4 or 8)"
        ∧ ∀ (stmt : Statement) (code : String), ¬ stmt.Refused f code := by
  refine ⟨⟨.unsupportedOverride (.unsupportedWidth 3), ⟨0, 19⟩⟩, by decide +kernel, rfl, rfl,
    by decide +kernel, ?_⟩
  rintro stmt code ⟨⟩

end Source

end Stencil
