import Mathlib
import Stencil.Proofs.Readings
import Stencil.Proofs.Tables

/-!
# Scopes that track what is declared

The scope after some statements in which nothing was found *tracks* what they declare
(`Scope.Tracks`): its tables are the declarations, and its solution is the one they describe. A
statement that fits keeps this, and any other is reported (`Tracks.statement`).

What a statement can do is listed by `Scope.Effect`. For each entry of the list it is said here
whether the statement fits what is declared before it. If it fits, what is tracked afterwards is
what was declared before and what the statement declares; if it does not, something is reported, and
nothing that was reported is ever taken back.

Both halves are put into one relation, `Scope.Settles`: a statement settles a condition if it is
taken over when the condition holds and reported when it does not. Statements that declare several
things settle the conditions of all of them, one after the other (`Settles.seq`). The conditions
themselves are those of declared programs and mention no scope, so that the last step is a
comparison of two conditions for each kind of clause (`Tracks.admits_iff`).
-/

namespace Stencil.Source

/-! ## Declarations -/

namespace Declared

@[simp] theorem dims_append (D E : Declared) : (D ++ E).dims = D.dims ++ E.dims := rfl

theorem eq_append (D E : Declared) :
    D ++ E = ⟨D.dims ++ E.dims, D.widths ++ E.widths, D.grids ++ E.grids,
      D.equations ++ E.equations⟩ := rfl

theorem append_none (D : Declared) : D ++ none = D := by simp [eq_append, none]

theorem none_append (D : Declared) : none ++ D = D := by simp [eq_append, none]

/-- Declarations can be taken together in any grouping, which is what an induction over the
    statements needs. -/
theorem append_assoc (D E F : Declared) : D ++ E ++ F = D ++ (E ++ F) := by simp [eq_append]

/-- What a program declares is what its first statement declares, followed by what the others do. -/
theorem ofStatements_cons (stmt : Statement) (stmts : List Statement) :
    ofStatements (stmt :: stmts) = ofClause stmt.clause ++ ofStatements stmts := rfl

/-- What a clause must be like after statements that declare `D`. -/
structure Admits (D : Declared) (c : Clause) : Prop where
  settings : c.SetsWidth
  distinct : ((D ++ ofClause c).dims.map Dim.name).Nodup
  oneStep : ((D ++ ofClause c).dims.filter Dim.isStep).length ≤ 1
  grids : ∀ g ∈ (ofClause c).grids, g.Fits D
  equations : ∀ e ∈ (ofClause c).equations, e.Fits D

end Declared

/-- More dimensions leave what is declared described, since a solution shows only the dimensions
    that its grids use. -/
theorem Declared.Describes.withDims {D : Declared} {s : Solution} (h : D.Describes s)
    (ds : List Dim) : Declared.Describes { D with dims := D.dims ++ ds } s where
  width := h.width
  grids := h.grids.imp fun _ _ hg =>
    ⟨hg.name, hg.dims, fun _ hd => List.mem_append_left _ (hg.declared hd)⟩
  equations := h.equations

/-- The names of a grid statement can be written. -/
def GridDecl.Spelled (g : GridDecl) : Prop :=
  IsIdentifier g.name ∧ ∀ name ∈ g.dims, IsIdentifier name

def Program.Spelled (p : Program) : Prop :=
  ∀ stmt ∈ p.statements, ∀ g ∈ (Declared.ofClause stmt.clause).grids, g.Spelled

/-! ## Shapes and steps -/

/-- Declared dimensions make a grid exactly if they are listed as a grid statement must list them. -/
theorem gridShape_iff {declared : List Dim} (hdistinct : (declared.map Dim.name).Nodup)
    {name : String} {dims : List Dim} (hname : IsIdentifier name)
    (hdims : ∀ d ∈ dims, IsIdentifier d.name) (hsub : dims ⊆ declared) :
    GridShape name dims ↔
      dims.map Dim.name ≠ [] ∧ (dims.map Dim.name).Nodup
        ∧ ∀ i dim, (dims.map Dim.name)[i]? = some dim → ⟨dim, .step⟩ ∈ declared → i = 0 := by
  have hstep : (∀ i dim, (dims.map Dim.name)[i]? = some dim → ⟨dim, .step⟩ ∈ declared → i = 0)
      ↔ ∀ i d, dims[i]? = some d → d.isStep = true → i = 0 := by
    constructor
    · intro hall i d hget hd
      refine hall i d.name (by rw [List.getElem?_map, hget]; rfl) ?_
      have hkind : (⟨d.name, .step⟩ : Dim) = d := by
        cases d
        simp only [Dim.isStep, beq_iff_eq] at hd
        rw [hd]
      rw [hkind]
      exact hsub (List.mem_of_getElem? hget)
    · intro hall i dim hget hdecl
      rw [List.getElem?_map, Option.map_eq_some_iff] at hget
      obtain ⟨d, hget, rfl⟩ := hget
      have heq := eq_of_name hdistinct (hsub (List.mem_of_getElem? hget)) hdecl rfl
      exact hall i d hget (by rw [heq]; rfl)
  rw [hstep]
  constructor
  · intro hshape
    exact ⟨by simpa using hshape.nonempty, hshape.distinct, hshape.stepFirst⟩
  · rintro ⟨hne, hdistinct, hfirst⟩
    exact ⟨hname, by simpa using hne, hdims, hdistinct, hfirst⟩

section Equations

variable {D : Declared} {grids : List Grid} (hdistinct : (D.dims.map Dim.name).Nodup)
  (hgrids : List.Forall₂ (GridDecl.Means D.dims) D.grids grids)

include hdistinct hgrids

/-- An equation of declared grids respects the order of steps exactly if its meaning does. -/
theorem causal_iff {e : EquationDecl} {l : Stencil.Point} {r : Stencil.Expr}
    (hl : e.lhs.Means grids l) (hr : e.rhs.Means grids r) :
    Causal l r ↔ ∃ n, e.lhs.AtStep D n ∧ ∀ p ∈ e.rhs.points, ∀ m, p.AtStep D m → m < n := by
  have hstep : ∀ {p : Point} {q : Stencil.Point}, p.Means grids q → ∀ n,
      p.AtStep D n ↔ ∃ o, q.stepOffset? = some o ∧ o.toInt = n := by
    intro p q hq n
    obtain ⟨_, _, hgrid⟩ := forall₂_right hgrids hq.grid
    exact hq.atStep_iff hdistinct hgrid.declared n
  have hpoints := hr.points
  constructor
  · rintro ⟨o, ho, hlater⟩
    refine ⟨o.toInt, (hstep hl _).mpr ⟨o, ho, rfl⟩, fun p hp m hm => ?_⟩
    obtain ⟨q, hq, hmeans⟩ := forall₂_left hpoints hp
    obtain ⟨o', ho', rfl⟩ := (hstep hmeans m).mp hm
    exact hlater q hq o' ho'
  · rintro ⟨n, hn, hlater⟩
    obtain ⟨o, ho, rfl⟩ := (hstep hl n).mp hn
    refine ⟨o, ho, fun q hq o' ho' => ?_⟩
    obtain ⟨p, hp, hmeans⟩ := forall₂_right hpoints hq
    exact hlater p hp o'.toInt ((hstep hmeans _).mpr ⟨o', ho', rfl⟩)

/-- An equation statement fits exactly if its sides stand for something causal. -/
theorem equationFits_iff (e : EquationDecl) :
    e.Fits D ↔ ∃ l r, e.lhs.Means grids l ∧ e.rhs.Means grids r ∧ Causal l r := by
  have hknown := exists_pointMeans_iff hgrids
  constructor
  · intro hfits
    obtain ⟨hlhs, hrhs⟩ := List.forall_mem_cons.mp hfits.points
    obtain ⟨l, hl⟩ := (hknown e.lhs).mpr hlhs
    obtain ⟨r, hr⟩ := (exists_exprMeans_iff _ e.rhs).mpr fun p hp => (hknown p).mpr (hrhs p hp)
    exact ⟨l, r, hl, hr, (causal_iff hdistinct hgrids hl hr).mpr hfits.later⟩
  · rintro ⟨l, r, hl, hr, hcausal⟩
    refine ⟨List.forall_mem_cons.mpr ⟨(hknown _).mp ⟨l, hl⟩, fun p hp => ?_⟩,
      (causal_iff hdistinct hgrids hl hr).mp hcausal⟩
    exact (hknown p).mp ((exists_exprMeans_iff _ e.rhs).mp ⟨r, hr⟩ p hp)

end Equations

/-! ## Scopes that track declarations -/

/-- **The scope has what is declared**, in its tables and in its solution. -/
structure Scope.Tracks (σ : Scope) (D : Declared) : Prop extends σ.Consistent where
  dims : σ.dims.map DeclaredDim.dim = D.dims
  stepless : (∀ d ∈ D.dims, d.isStep = false) → σ.step = none
  distinct : (D.dims.map Dim.name).Nodup
  describes : D.Describes σ.draft.solution

/-- The second scope, after the first one, tracks `D` and nothing new was found if the condition
    holds. Otherwise something was found. -/
structure Scope.Settles (σ σ' : Scope) (ok : Prop) (D : Declared) : Prop where
  accepts : ok → σ'.findings = σ.findings ∧ σ'.Tracks D
  rejects : ¬ ok → σ'.findings ≠ []

namespace Scope

variable {σ σ' : Scope} {D : Declared} {span : Span}

/-- Only the truth of the condition matters, not the words it is put in. -/
theorem Settles.congr {ok ok' : Prop} (h : σ.Settles σ' ok D) (hok : ok ↔ ok') :
    σ.Settles σ' ok' D :=
  ⟨fun hok' => h.accepts (hok.mpr hok'), fun hok' => h.rejects fun hc => hok' (hok.mp hc)⟩

/-- What settles one condition and then another one settles both: a report of the first is still
    there after the second. -/
theorem Settles.seq {σ₂ : Scope} {ok ok₂ : Prop} {D₂ : Declared} (h : σ.Settles σ' ok D)
    (h₂ : σ'.Tracks D → σ'.Settles σ₂ ok₂ D₂) (hgrown : σ'.findings <+: σ₂.findings) :
    σ.Settles σ₂ (ok ∧ ok₂) D₂ where
  accepts := by
    rintro ⟨hok, hok₂⟩
    obtain ⟨hfindings, htracks⟩ := h.accepts hok
    obtain ⟨hfindings₂, htracks₂⟩ := (h₂ htracks).accepts hok₂
    exact ⟨hfindings₂.trans hfindings, htracks₂⟩
  rejects := by
    intro hnot
    by_cases hok : ok
    · exact (h₂ (h.accepts hok).2).rejects fun hok₂ => hnot ⟨hok, hok₂⟩
    · intro hnil
      rw [hnil, List.prefix_nil] at hgrown
      exact h.rejects hok hgrown

/-- A statement that is reported settles any condition that is false. -/
theorem settles_report {ok : Prop} {fs : List Finding} (hok : ¬ ok) (hfs : fs ≠ []) :
    σ.Settles (σ.report fs) ok D :=
  ⟨fun h => absurd h hok, fun _ => by simp [report, hfs]⟩

/-- A name is missing from the table exactly if no declared dimension has it. -/
theorem Tracks.dim?_eq_none_iff (h : σ.Tracks D) (name : String) :
    σ.dim? name = none ↔ ∀ d ∈ D.dims, d.name ≠ name := by
  rw [dim?, List.find?_eq_none, ← h.dims, List.forall_mem_map]
  simp

/-- What the table gives for a name is a declared dimension of that name. -/
theorem Tracks.of_dim?_eq_some (h : σ.Tracks D) {name : String} {entry : DeclaredDim}
    (hfind : σ.dim? name = some entry) : entry.dim ∈ D.dims ∧ entry.dim.name = name := by
  refine ⟨?_, by simpa using List.find?_some hfind⟩
  rw [← h.dims]
  exact List.mem_map_of_mem (List.mem_of_find?_eq_some hfind)

/-- No more than one step dimension has been declared as long as nothing was reported. -/
theorem Tracks.length_steps_le (h : σ.Tracks D) : (D.dims.filter Dim.isStep).length ≤ 1 := by
  have hsame : ∀ d ∈ D.dims.filter Dim.isStep, ∀ d' ∈ D.dims.filter Dim.isStep, d = d' := by
    intro d hd d' hd'
    rw [← h.dims] at hd hd'
    obtain ⟨hd, hstep⟩ := List.mem_filter.mp hd
    obtain ⟨hd', hstep'⟩ := List.mem_filter.mp hd'
    obtain ⟨a, ha, rfl⟩ := List.mem_map.mp hd
    obtain ⟨b, hb, rfl⟩ := List.mem_map.mp hd'
    exact h.oneStep a ha b hb hstep hstep'
  have hnodup := (List.Nodup.of_map _ h.distinct).filter Dim.isStep
  match hlist : D.dims.filter Dim.isStep with
  | [] => exact Nat.zero_le 1
  | [x] => exact Nat.le_refl 1
  | x :: y :: rest =>
    rw [hlist] at hsame hnodup
    have hxy := hsame x (by simp) y (by simp)
    exact absurd hxy (by simp at hnodup; tauto)

/-! ## Dimensions -/

/-- A dimension is declared if its name is new, and reported together with the earlier declaration
    otherwise. -/
theorem Tracks.declares (h : σ.Tracks D) {id : Ident} {kind : DimKind}
    (hkind : kind = .step → σ.step = none) (hdecl : σ.Declares id kind σ') :
    σ.Settles σ' (id.name ∉ D.dims.map Dim.name)
      { D with dims := D.dims ++ [⟨id.name, kind⟩] } := by
  cases hdecl with
  | @repeated entry hfind =>
    obtain ⟨hmem, hname⟩ := h.of_dim?_eq_some hfind
    refine settles_report ?_ (by simp)
    exact fun hnew => hnew (hname ▸ List.mem_map_of_mem hmem)
  | entered hfind =>
    have hnew := (h.dim?_eq_none_iff id.name).mp hfind
    have hfresh : id.name ∉ D.dims.map Dim.name := by
      intro hmem
      obtain ⟨d, hd, hname⟩ := List.mem_map.mp hmem
      exact hnew d hd hname
    refine ⟨fun _ => ⟨rfl, ?_⟩, fun hc => absurd hfresh hc⟩
    refine ⟨h.withDim id hkind, ?_, ?_, ?_, h.describes.withDims _⟩
    · simp [withDim, h.dims]
    · -- the new dimension is no step dimension if none is
      intro hnone
      obtain ⟨hold, hlast⟩ := List.forall_mem_append.mp hnone
      have hdomain : kind ≠ .step := by
        rintro rfl
        exact absurd (hlast _ (List.mem_singleton_self _)) (by simp [Dim.isStep])
      simp only [withDim, if_neg hdomain]
      exact h.stepless hold
    · simp only [List.map_append, List.map_singleton]
      rw [List.nodup_append]
      refine ⟨h.distinct, List.nodup_singleton _, fun a ha b hb hab => ?_⟩
      rw [hab, List.mem_singleton.mp hb] at ha
      exact hfresh ha

/-- Domain dimensions are declared one by one, and all of them if no name among them or before them
    is repeated. -/
theorem Tracks.domain (ids : List Ident) : ∀ {σ : Scope} {D : Declared}, σ.Tracks D →
    Effect span σ (.domain ids) σ' →
    σ.Settles σ' ((D.dims ++ ids.map fun id => (⟨id.name, .domain⟩ : Dim)).map Dim.name).Nodup
      { D with dims := D.dims ++ ids.map fun id => ⟨id.name, .domain⟩ } := by
  induction ids with
  | nil =>
    intro σ D h heffect
    cases heffect
    simp only [List.map_nil, List.append_nil]
    exact ⟨fun _ => ⟨rfl, h⟩, fun hc => absurd h.distinct hc⟩
  | cons id ids ih =>
    intro σ D h heffect
    cases heffect with
    | domain hdecl hrest =>
      have hassoc : D.dims ++ (id :: ids).map (fun id => (⟨id.name, .domain⟩ : Dim))
          = (D.dims ++ [⟨id.name, .domain⟩]) ++ ids.map fun id => ⟨id.name, .domain⟩ := by simp
      rw [hassoc]
      have hfirst := h.declares (by simp) hdecl
      refine (hfirst.seq (fun htracks => ih htracks hrest) hrest.prefix_findings).congr
        ⟨fun hok => hok.2, fun hok => ⟨fun hmem => ?_, hok⟩⟩
      rw [List.map_append, List.map_append, List.append_assoc, List.nodup_append] at hok
      exact hok.2.2 id.name hmem id.name (by simp) rfl

/-- A step dimension is declared if it is the first one and its name is new. -/
theorem Tracks.step (h : σ.Tracks D) {id : Ident} (heffect : Effect span σ (.step id) σ') :
    σ.Settles σ'
      (((D.dims ++ [(⟨id.name, .step⟩ : Dim)]).map Dim.name).Nodup
        ∧ ((D.dims ++ [(⟨id.name, .step⟩ : Dim)]).filter Dim.isStep).length ≤ 1)
      { D with dims := D.dims ++ [⟨id.name, .step⟩] } := by
  cases heffect with
  | stepSecond hfirst =>
    refine settles_report ?_ (by simp)
    rintro ⟨_, hone⟩
    have hnone : ∀ d ∈ D.dims, d.isStep = false := by
      intro d hd
      rw [List.filter_append, List.length_append] at hone
      have hnil : D.dims.filter Dim.isStep = [] := by
        rw [← List.length_eq_zero_iff]
        simp [Dim.isStep] at hone ⊢
        exact hone
      simpa using List.filter_eq_nil_iff.mp hnil d hd
    -- there is an earlier step dimension, but the condition leaves room for this one only
    rw [h.stepless hnone] at hfirst
    exact absurd hfirst (by simp)
  | step hfirst hdecl =>
    have hdecl := h.declares (fun _ => hfirst) hdecl
    refine ⟨fun hok => hdecl.accepts ?_, fun hok => hdecl.rejects fun hnew => hok ?_⟩
    · intro hmem
      rw [List.map_append, List.nodup_append] at hok
      exact hok.1.2.2 _ hmem id.name (by simp) rfl
    · obtain ⟨_, htracks⟩ := hdecl.accepts hnew
      exact ⟨htracks.distinct, htracks.length_steps_le⟩

/-! ## Settings -/

theorem isWidth_iff (value : Double) :
    (value.IsInt 4 ∨ value.IsInt 8) ↔ ∃ w : Width, value.IsInt w.bytes := by
  constructor
  · rintro (h | h)
    · exact ⟨.single, h⟩
    · exact ⟨.double, h⟩
  · rintro ⟨w, h⟩
    cases w with
    | single => exact Or.inl h
    | double => exact Or.inr h

/-- A setting is taken over if it is one of the width and worth a width. -/
theorem Tracks.set (h : σ.Tracks D) {name : Ident} {value : Double} {valueSpan : Span}
    (heffect : Effect span σ (.set name value valueSpan) σ') :
    σ.Settles σ' (name.name = "element_bytes" ∧ (value.IsInt 4 ∨ value.IsInt 8))
      { D with widths := D.widths ++ [value] } := by
  have hconsistent := h.toConsistent.effect heffect
  rw [isWidth_iff]
  cases heffect with
  | settingUnknown hname => exact settles_report (fun hc => hname hc.1) (by simp)
  | widthUnsupported hname hvalue =>
    refine settles_report ?_ (by simp)
    rintro ⟨_, w, hw⟩
    exact hvalue w hw
  | @widthSet _ _ _ _ w hname hvalue =>
    refine ⟨fun _ => ⟨rfl, ?_⟩, fun hc => absurd ⟨hname, w, hvalue⟩ hc⟩
    refine ⟨hconsistent, h.dims, h.stepless, h.distinct, ?_, h.describes.grids,
      h.describes.equations⟩
    show WidthMeans (D.widths ++ [value]) w
    simpa [WidthMeans] using hvalue

/-! ## Grids -/

/-- The dimensions that a grid statement finds are declared ones. -/
theorem Tracks.found_subset (h : σ.Tracks D) (ids : List Ident) : σ.found ids ⊆ D.dims := by
  intro d hd
  obtain ⟨_, a, ha, rfl⟩ := of_dim?_map (mem_found hd)
  rw [← h.dims]
  exact List.mem_map_of_mem ha

/-- A grid is missing from the solution exactly if no declared grid has its name. -/
theorem Tracks.grid?_eq_none_iff (h : σ.Tracks D) (name : String) :
    σ.draft.solution.grid? name = none ↔ ∀ g ∈ D.grids, g.name ≠ name := by
  rw [Solution.grid?, List.find?_eq_none]
  constructor
  · intro hnone g hg hname
    obtain ⟨grid, hmem, hmeans⟩ := forall₂_left h.describes.grids hg
    exact hnone grid hmem (by simp [hmeans.name, hname])
  · intro hnone grid hmem hname
    obtain ⟨g, hg, hmeans⟩ := forall₂_right h.describes.grids hmem
    exact hnone g hg (by rw [← hmeans.name]; simpa using hname)

/-- A grid statement whose dimensions are declared fits if its name is new and its dimensions make a
    grid. -/
theorem Tracks.gridFits_iff (h : σ.Tracks D) {name : Ident} {dims : List Ident}
    (hname : IsIdentifier name.name) (hdims : ∀ id ∈ dims, IsIdentifier id.name)
    (hmissing : σ.missing dims = []) :
    GridDecl.Fits D ⟨name.name, dims.map Ident.name⟩
      ↔ σ.draft.solution.grid? name.name = none ∧ GridShape name.name (σ.found dims) := by
  have hnames := map_name_found hmissing
  have hsub := h.found_subset dims
  have hfoundNames : ∀ d ∈ σ.found dims, IsIdentifier d.name := by
    intro d hd
    have hmem : d.name ∈ dims.map Ident.name := hnames ▸ List.mem_map_of_mem hd
    obtain ⟨id, hid, heq⟩ := List.mem_map.mp hmem
    exact heq ▸ hdims id hid
  have hshape := gridShape_iff h.distinct hname hfoundNames hsub
  rw [hnames] at hshape
  rw [hshape, h.grid?_eq_none_iff]
  constructor
  · intro hfits
    exact ⟨hfits.fresh, hfits.nonempty, hfits.distinct, hfits.stepFirst⟩
  · rintro ⟨hfresh, hne, hdistinct, hfirst⟩
    refine ⟨fun dim hdim => ?_, hne, hdistinct, hfirst, hfresh⟩
    obtain ⟨d, hd, hdname⟩ :=
      List.mem_map.mp (hnames.symm ▸ hdim : dim ∈ (σ.found dims).map Dim.name)
    exact ⟨d, hsub hd, hdname⟩

/-- A grid statement is taken over if it fits; otherwise a dimension is unknown or the draft refuses
    the grid. -/
theorem Tracks.grid (h : σ.Tracks D) {name : Ident} {dims : List Ident}
    (hname : IsIdentifier name.name) (hdims : ∀ id ∈ dims, IsIdentifier id.name)
    (heffect : Effect span σ (.grid name dims) σ') :
    σ.Settles σ' (GridDecl.Fits D ⟨name.name, dims.map Ident.name⟩)
      { D with grids := D.grids ++ [⟨name.name, dims.map Ident.name⟩] } := by
  have hconsistent := h.toConsistent.effect heffect
  cases heffect with
  | dimsUnknown hmissing =>
    refine settles_report (fun hfits => ?_) (by simpa using hmissing)
    obtain ⟨id, hmem⟩ := List.exists_mem_of_ne_nil _ hmissing
    obtain ⟨hid, hnone⟩ := List.mem_filter.mp hmem
    obtain ⟨d, hd, hdname⟩ := hfits.declared id.name (List.mem_map_of_mem hid)
    exact (h.dim?_eq_none_iff id.name).mp (Option.isNone_iff_eq_none.mp hnone) d hd hdname
  | gridRefused hmissing hcall =>
    refine settles_report ?_ (by simp)
    rw [h.gridFits_iff hname hdims hmissing]
    rintro ⟨hfresh, hshape⟩
    -- declared dimensions go with those in use, so that the grid would have been accepted
    have hok := Draft.declareGrid_eq_ok_iff.mpr
      ⟨hfresh, Grid.make_eq_ok_iff (g := ⟨_, _, (Grid.fault?_eq_none_iff _ _).mpr hshape⟩)
        |>.mpr ⟨rfl, rfl⟩, fun d hd => h.conflict?_eq_none _ (mem_found hd), rfl⟩
    rw [hok] at hcall
    cases hcall
  | @grid _ _ _ g draft hmissing hcall =>
    obtain ⟨hfresh, hmake, _, rfl⟩ := Draft.declareGrid_eq_ok_iff.mp hcall
    obtain ⟨hgname, hgdims⟩ := Grid.make_eq_ok_iff.mp hmake
    have hmeans : GridDecl.Means D.dims ⟨name.name, dims.map Ident.name⟩ g :=
      ⟨hgname, by rw [Grid.dimNames, hgdims, map_name_found hmissing],
        hgdims ▸ h.found_subset dims⟩
    refine ⟨fun _ => ⟨rfl, hconsistent, h.dims, h.stepless, h.distinct, ?_⟩,
      fun hc => absurd ((h.gridFits_iff hname hdims hmissing).mpr ⟨hfresh, ?_⟩) hc⟩
    · refine ⟨h.describes.width, List.rel_append h.describes.grids (.cons hmeans .nil), ?_⟩
      exact h.describes.equations.imp fun _ _ he =>
        ⟨he.1.mono (List.subset_append_left _ _), he.2.mono (List.subset_append_left _ _)⟩
    · rw [← hgname, ← hgdims]
      exact g.shape

/-! ## Equations -/

/-- The points of what an equation means are points of declared grids, all of which the solution
    owns. -/
theorem owns_of_means {s : Solution} (hs : s.Valid) {lhs : Point} {rhs : Expr} {l : Stencil.Point}
    {r : Stencil.Expr} (hl : lhs.Means s.grids l) (hr : rhs.Means s.grids r) :
    ∀ p ∈ l :: r.points, s.owns p = true := by
  have hgrid : ∀ q : Stencil.Point, q.grid ∈ s.grids → s.owns q = true := by
    intro q hq
    simp [Solution.owns, (hs.lookup _ _).mpr ⟨hq, rfl⟩]
  refine List.forall_mem_cons.mpr ⟨hgrid _ hl.grid, fun q hq => ?_⟩
  obtain ⟨p, _, hp⟩ := forall₂_right hr.points hq
  exact hgrid q hp.grid

/-- An equation is taken over if it fits; otherwise a side cannot be read or the draft refuses the
    equation. -/
theorem Tracks.equation (h : σ.Tracks D) {lhs : Point} {rhs : Expr}
    (heffect : Effect span σ (.equation lhs rhs) σ') :
    σ.Settles σ' (EquationDecl.Fits D ⟨lhs, rhs⟩)
      { D with equations := D.equations ++ [⟨lhs, rhs⟩] } := by
  have hconsistent := h.toConsistent.effect heffect
  have hsides := (elaboratePoint_decides h.valid lhs).both (elaborateExpr_decides h.valid rhs)
    Prod.mk
  refine Settles.congr ?_ (equationFits_iff h.distinct h.describes.grids ⟨lhs, rhs⟩).symm
  -- sides that are read are the only ones that the statement can stand for
  have hread : ∀ {l r}, (sides σ.draft.solution lhs rhs).value? = some (l, r) →
      lhs.Means σ.draft.solution.grids l ∧ rhs.Means σ.draft.solution.grids r
        ∧ (sides σ.draft.solution lhs rhs).findings = [] := by
    intro l r hvalue
    obtain ⟨l', r', hl, hr, heq⟩ := (hsides.value (l, r)).mp hvalue
    obtain ⟨rfl, rfl⟩ := Prod.mk.inj heq
    exact ⟨hl, hr, hsides.findings.mpr ⟨_, _, _, hl, hr, rfl⟩⟩
  cases heffect with
  | sidesUnread hvalue =>
    have hnone : ∀ z, (sides σ.draft.solution lhs rhs).value? ≠ some z := by simp [hvalue]
    refine settles_report ?_ fun hnil => ?_
    · rintro ⟨l, r, hl, hr, _⟩
      exact hnone (l, r) ((hsides.value _).mpr ⟨l, r, hl, hr, rfl⟩)
    · obtain ⟨z, hz⟩ := hsides.findings.mp hnil
      exact hnone z ((hsides.value z).mpr hz)
  | @equationRefused _ _ _ l r _ hvalue hcall =>
    obtain ⟨hl, hr, hfound⟩ := hread hvalue
    rw [hfound, report_nil]
    refine settles_report ?_ (List.cons_ne_nil _ _)
    rintro ⟨l', r', hl', hr', hcausal⟩
    have hother := (hsides.value (l', r')).mpr ⟨l', r', hl', hr', rfl⟩
    obtain ⟨rfl, rfl⟩ := Prod.mk.inj (Option.some.inj (hvalue.symm.trans hother))
    have hok := Draft.equate_eq_ok_iff (q := ⟨l, r, (Equation.fault?_eq_none_iff l r).mpr hcausal⟩)
      |>.mpr ⟨rfl, rfl, Draft.addEquation_eq_ok_iff.mpr ⟨owns_of_means h.valid hl hr, rfl⟩⟩
    rw [hok] at hcall
    cases hcall
  | @equation _ _ _ l r e draft hvalue hcall =>
    obtain ⟨hl, hr, hfound⟩ := hread hvalue
    obtain ⟨rfl, rfl, hadd⟩ := Draft.equate_eq_ok_iff.mp hcall
    obtain ⟨_, rfl⟩ := Draft.addEquation_eq_ok_iff.mp hadd
    refine ⟨fun _ => ⟨?_, hconsistent, h.dims, h.stepless, h.distinct, ?_⟩,
      fun hc => absurd ⟨e.lhs, e.rhs, hl, hr, e.causal⟩ hc⟩
    · rw [hfound, report_nil]
    · exact ⟨h.describes.width, h.describes.grids,
        List.rel_append h.describes.equations (.cons ⟨hl, hr⟩ .nil)⟩

/-! ## Statements -/

/-- A clause without dimensions fits if what it sets, its grids and its equations do. -/
theorem Tracks.admits_iff (h : σ.Tracks D) {c : Clause} (hdims : (Declared.ofClause c).dims = []) :
    D.Admits c ↔ c.SetsWidth ∧ (∀ g ∈ (Declared.ofClause c).grids, g.Fits D)
      ∧ ∀ e ∈ (Declared.ofClause c).equations, e.Fits D := by
  have hsame : (D ++ .ofClause c).dims = D.dims := by
    rw [Declared.dims_append, hdims, List.append_nil]
  constructor
  · intro hc
    exact ⟨hc.settings, hc.grids, hc.equations⟩
  · rintro ⟨hsettings, hgrids, hequations⟩
    refine ⟨hsettings, ?_, ?_, hgrids, hequations⟩
    · rw [hsame]; exact h.distinct
    · rw [hsame]; exact h.length_steps_le

/-- **A statement is taken over if it fits what was declared before it**, and is reported
    otherwise. -/
theorem Tracks.statement (h : σ.Tracks D) (stmt : Statement)
    (hspelled : ∀ g ∈ (Declared.ofClause stmt.clause).grids, g.Spelled) :
    σ.Settles (σ.statement stmt) (D.Admits stmt.clause) (D ++ .ofClause stmt.clause) := by
  have heffect := effect_statement σ stmt
  obtain ⟨clause, span⟩ := stmt
  cases clause with
  | solution id =>
    have hD : D ++ .ofClause (.solution id) = D := D.append_none
    show σ.Settles σ (D.Admits (.solution id)) (D ++ .ofClause (.solution id))
    rw [hD, h.admits_iff rfl]
    have hset : (Clause.solution id).SetsWidth := by rintro _ _ _ ⟨⟩
    exact ⟨fun _ => ⟨rfl, h⟩,
      fun hc => absurd ⟨hset, List.forall_mem_nil _, List.forall_mem_nil _⟩ hc⟩
  | set name value valueSpan =>
    have hD : D ++ .ofClause (.set name value valueSpan)
        = { D with widths := D.widths ++ [value] } := by
      simp [Declared.eq_append, Declared.ofClause, Declared.none]
    show σ.Settles _ (D.Admits (.set name value valueSpan)) _
    rw [hD, h.admits_iff rfl]
    refine (h.set heffect).congr
      ⟨fun hset => ⟨?_, List.forall_mem_nil _, List.forall_mem_nil _⟩, fun hc => ?_⟩
    · rintro _ _ _ ⟨⟩
      exact hset
    · exact hc.1 name value valueSpan rfl
  | step id =>
    have hD : D ++ .ofClause (.step id) = { D with dims := D.dims ++ [⟨id.name, .step⟩] } := by
      simp [Declared.eq_append, Declared.ofClause, Declared.none]
    show σ.Settles _ (D.Admits (.step id)) _
    rw [hD]
    have hset : (Clause.step id).SetsWidth := by rintro _ _ _ ⟨⟩
    refine (h.step heffect).congr
      ⟨fun hdims => ⟨hset, ?_, ?_, List.forall_mem_nil _, List.forall_mem_nil _⟩, fun hc => ?_⟩
    · rw [hD]; exact hdims.1
    · rw [hD]; exact hdims.2
    · exact ⟨hc.distinct, hc.oneStep⟩
  | domain ids =>
    have hD : D ++ .ofClause (.domain ids)
        = { D with dims := D.dims ++ ids.map fun id => ⟨id.name, .domain⟩ } := by
      simp [Declared.eq_append, Declared.ofClause, Declared.none]
    have hsteps : (D.dims ++ ids.map fun id => (⟨id.name, .domain⟩ : Dim)).filter Dim.isStep
        = D.dims.filter Dim.isStep := by
      rw [List.filter_append, List.filter_map]
      simp [Function.comp_def, Dim.isStep]
    show σ.Settles _ (D.Admits (.domain ids)) _
    rw [hD]
    have hset : (Clause.domain ids).SetsWidth := by rintro _ _ _ ⟨⟩
    refine (Tracks.domain ids h heffect).congr
      ⟨fun hdims => ⟨hset, ?_, ?_, List.forall_mem_nil _, List.forall_mem_nil _⟩, fun hc => ?_⟩
    · rw [hD]; exact hdims
    · rw [hD, hsteps]; exact h.length_steps_le
    · exact hc.distinct
  | grid name dims =>
    have hD : D ++ .ofClause (.grid name dims)
        = { D with grids := D.grids ++ [⟨name.name, dims.map Ident.name⟩] } := by
      simp [Declared.eq_append, Declared.ofClause, Declared.none]
    have hnames := hspelled ⟨name.name, dims.map Ident.name⟩ List.mem_cons_self
    have hdims : ∀ id ∈ dims, IsIdentifier id.name := fun id hid =>
      hnames.2 _ (List.mem_map_of_mem hid)
    show σ.Settles _ (D.Admits (.grid name dims)) _
    rw [hD, h.admits_iff rfl]
    have hset : (Clause.grid name dims).SetsWidth := by rintro _ _ _ ⟨⟩
    refine (h.grid hnames.1 hdims heffect).congr
      ⟨fun hfits => ⟨hset, List.forall_mem_singleton.mpr hfits, List.forall_mem_nil _⟩, fun hc => ?_⟩
    exact hc.2.1 _ List.mem_cons_self
  | equation lhs rhs =>
    have hD : D ++ .ofClause (.equation lhs rhs)
        = { D with equations := D.equations ++ [⟨lhs, rhs⟩] } := by
      simp [Declared.eq_append, Declared.ofClause, Declared.none]
    show σ.Settles _ (D.Admits (.equation lhs rhs)) _
    rw [hD, h.admits_iff rfl]
    have hset : (Clause.equation lhs rhs).SetsWidth := by rintro _ _ _ ⟨⟩
    refine (h.equation heffect).congr
      ⟨fun hfits => ⟨hset, List.forall_mem_nil _, List.forall_mem_singleton.mpr hfits⟩, fun hc => ?_⟩
    exact hc.2.2 _ List.mem_cons_self

end Scope
end Stencil.Source
