import Mathlib
import Stencil.Proofs.Meaning
import Stencil.Proofs.Validity

/-!
# What points and expressions are elaborated to

Elaboration gives a point or an expression exactly what it stands for, and gives nothing exactly if
it finds something to report (`elaboratePoint_decides`, `elaborateExpr_decides`). There is something
to stand for exactly if all points are known (`exists_pointMeans_iff`, `exists_exprMeans_iff`).

Both are instances of one notion. A check *decides* a property if its value is the one thing that
has the property, and if it has findings exactly where nothing has it (`Checked.Decides`). Deciding
goes through the ways to put checks together: a function of the value (`Decides.map`) and two checks
side by side, both of which are made even if the first one finds something (`Decides.both`). So the
proof for expressions follows the expression, and says nothing of findings.

What a source point or expression means is a relation to the grids that are declared, and it does
not change when more grids are (`Point.Means.mono`, `Expr.Means.mono`).
-/

namespace Stencil.Source

/-! ## Checked parts -/

/-- The part is what `P` asks for if there is such a thing, and otherwise something was found. -/
structure Checked.Decides {α : Type} (c : Checked α) (P : α → Prop) : Prop where
  value : ∀ a, c.value? = some a ↔ P a
  findings : c.findings = [] ↔ ∃ a, P a

namespace Checked

variable {α β γ : Type} {P : α → Prop} {Q : β → Prop}

/-- A check that gives a value decides what that value alone has. -/
theorem decides_ok {a : α} (h : ∀ b, P b ↔ b = a) : (Checked.ok a).Decides P where
  value := fun b => by rw [h]; exact ⟨fun hb => (Option.some.inj hb).symm, fun hb => hb ▸ rfl⟩
  findings := ⟨fun _ => ⟨a, (h a).mpr rfl⟩, fun _ => rfl⟩

/-- A check that finds something and gives no value decides what nothing has. -/
theorem decides_refused {fs : List Finding} (hfs : fs ≠ []) (h : ∀ a, ¬ P a) :
    (refused fs).Decides P where
  value := fun a => ⟨fun ha => absurd ha (by simp [refused]), fun ha => absurd ha (h a)⟩
  findings := ⟨fun hnil => absurd hnil hfs, fun ⟨a, ha⟩ => absurd ha (h a)⟩

theorem Decides.unique {c : Checked α} (h : c.Decides P) {a b : α} (ha : P a) (hb : P b) : a = b :=
  Option.some.inj (((h.value a).mpr ha).symm.trans ((h.value b).mpr hb))

/-- A function of the value decides what the values of the function have. -/
theorem Decides.map {c : Checked α} (h : c.Decides P) (f : α → β) :
    (c.map f).Decides fun b => ∃ a, P a ∧ f a = b where
  value := fun b => by simp only [Checked.map, Option.map_eq_some_iff, h.value]
  findings := h.findings.trans
    ⟨fun ⟨a, ha⟩ => ⟨f a, a, ha, rfl⟩, fun ⟨_, a, ha, _⟩ => ⟨a, ha⟩⟩

/-- **Two checks side by side** decide both properties at once; each of them is reported by
    itself. -/
theorem Decides.both {a : Checked α} {b : Checked β} (ha : a.Decides P) (hb : b.Decides Q)
    (f : α → β → γ) : (Checked.both f a b).Decides fun z => ∃ x y, P x ∧ Q y ∧ f x y = z where
  value := fun z => by
    simp only [Checked.both, Option.bind_eq_some_iff, Option.map_eq_some_iff, ha.value, hb.value]
    exact ⟨fun ⟨x, hx, y, hy, hz⟩ => ⟨x, y, hx, hy, hz⟩, fun ⟨x, y, hx, hy, hz⟩ => ⟨x, hx, y, hy, hz⟩⟩
  findings := by
    show a.findings ++ b.findings = [] ↔ _
    rw [List.append_eq_nil_iff, ha.findings, hb.findings]
    constructor
    · rintro ⟨⟨x, hx⟩, ⟨y, hy⟩⟩
      exact ⟨f x y, x, y, hx, hy, rfl⟩
    · rintro ⟨_, x, y, hx, hy, _⟩
      exact ⟨⟨x, hx⟩, ⟨y, hy⟩⟩

theorem Decides.congr {c : Checked α} {P' : α → Prop} (h : c.Decides P) (hP : ∀ a, P a ↔ P' a) :
    c.Decides P' where
  value := fun a => (h.value a).trans (hP a)
  findings := h.findings.trans (exists_congr hP)

end Checked

/-! ## Points -/

/-- Nothing is wrong with an index if it names the dimension at its place and its offset is a 64-bit
    integer. -/
theorem indexFindings_eq_nil_iff (g : Grid) (position : Nat) (i : Index) (d : Dim) :
    indexFindings g position i d = []
      ↔ i.dim.name = d.name ∧ i.offset.toInt64?.isSome = true := by
  unfold indexFindings
  by_cases hname : i.dim.name = d.name <;> by_cases hoffset : i.offset.toInt64?.isSome = true <;>
    simp [hname, hoffset]

/-- Nothing is found in indices that name the dimensions in order, with offsets in range. -/
theorem indicesFindings_eq_nil_iff (g : Grid) (is : List Index) :
    ∀ (position : Nat) (ds : List Dim), is.length = ds.length →
      (indicesFindings g position is ds = []
        ↔ is.map (·.dim.name) = ds.map Dim.name
          ∧ ∀ i ∈ is, i.offset.toInt64?.isSome = true) := by
  induction is with
  | nil =>
    intro position ds hlen
    rw [List.length_eq_zero_iff.mp hlen.symm]
    simp [indicesFindings]
  | cons i is ih =>
    intro position ds hlen
    cases ds with
    | nil => exact absurd hlen (by simp)
    | cons d ds =>
      have hlen : is.length = ds.length := by simpa using hlen
      rw [indicesFindings, List.append_eq_nil_iff, indexFindings_eq_nil_iff,
        ih (position + 1) ds hlen, List.map_cons, List.map_cons, List.cons.injEq,
        List.forall_mem_cons]
      tauto

/-- Where all offsets can be read, reading them loses none. -/
theorem forall₂_filterMap_offsets {is : List Index}
    (h : ∀ i ∈ is, i.offset.toInt64?.isSome = true) :
    List.Forall₂ (fun i o => i.offset.IsInt o.toInt) is
      (is.filterMap (·.offset.toInt64?)) := by
  induction is with
  | nil => exact .nil
  | cons i is ih =>
    obtain ⟨hi, his⟩ := List.forall_mem_cons.mp h
    obtain ⟨o, ho⟩ := Option.isSome_iff_exists.mp hi
    rw [List.filterMap_cons_some (f := fun i : Index => i.offset.toInt64?) ho]
    exact .cons ((Double.toInt64?_eq_some_iff _ _).mp ho) (ih his)

/-- Offsets that indices are worth are read as such. -/
theorem filterMap_offsets_eq {is : List Index} {os : List Int64}
    (h : List.Forall₂ (fun i o => i.offset.IsInt o.toInt) is os) :
    is.filterMap (·.offset.toInt64?) = os := by
  induction h with
  | nil => rfl
  | cons ho _ ih =>
    rw [List.filterMap_cons_some (f := fun i : Index => i.offset.toInt64?)
      ((Double.toInt64?_eq_some_iff _ _).mpr ho), ih]

theorem isSome_of_forall₂ {is : List Index} {os : List Int64}
    (h : List.Forall₂ (fun i o => i.offset.IsInt o.toInt) is os) :
    ∀ i ∈ is, i.offset.toInt64?.isSome = true := by
  induction h with
  | nil => intro i hi; exact absurd hi List.not_mem_nil
  | cons ho _ ih =>
    refine List.forall_mem_cons.mpr ⟨?_, ih⟩
    rw [(Double.toInt64?_eq_some_iff _ _).mpr ho]
    rfl

/-- A point is made from just the grid and the offsets it is given. -/
theorem Point.make_eq_ok_iff {g : Grid} {os : List Int64} {q : Stencil.Point} :
    Stencil.Point.make g os = .ok q ↔ q.grid = g ∧ q.offsets = os := by
  unfold Stencil.Point.make
  obtain ⟨grid, offsets, hq⟩ := q
  split_ifs with h
  · simp only [Except.ok.injEq, Stencil.Point.mk.injEq]
    exact ⟨fun ⟨hg, ho⟩ => ⟨hg.symm, ho.symm⟩, fun ⟨hg, ho⟩ => ⟨hg.symm, ho.symm⟩⟩
  · constructor
    · intro heq; exact absurd heq (by simp)
    · rintro ⟨rfl, rfl⟩; exact absurd hq h

/-- As many indices as a grid has dimensions make the point of the grid that they stand for. -/
theorem elaborateIndices_decides (g : Grid) (p : Point) (hlen : p.indices.length = g.dims.length) :
    (elaborateIndices g p).Decides fun q =>
      q.grid = g ∧ p.indices.map (·.dim.name) = g.dimNames
        ∧ List.Forall₂ (fun i o => i.offset.IsInt o.toInt) p.indices q.offsets := by
  have hiff := indicesFindings_eq_nil_iff g p.indices 0 g.dims hlen
  unfold elaborateIndices
  cases hfound : indicesFindings g 0 p.indices g.dims with
  | cons f fs =>
    refine Checked.decides_refused (by simp) fun q ⟨_, hdims, hoffsets⟩ => ?_
    have hnil := hiff.mpr ⟨hdims, isSome_of_forall₂ hoffsets⟩
    rw [hfound] at hnil
    exact absurd hnil (by simp)
  | nil =>
    -- nothing is found, so that there are as many offsets as dimensions and a point can be made
    obtain ⟨hdims, hoffsets⟩ := hiff.mp hfound
    have hread := forall₂_filterMap_offsets hoffsets
    have hmake := (Point.make_eq_ok_iff (g := g) (q := ⟨g, _, hread.length_eq.symm.trans hlen⟩)).mpr
      ⟨rfl, rfl⟩
    simp only [hmake]
    refine Checked.decides_ok fun q => ⟨?_, ?_⟩
    · rintro ⟨hgrid, _, hos⟩
      obtain ⟨grid, offsets, hsound⟩ := q
      simp only at hgrid hos
      subst hgrid
      simp only [filterMap_offsets_eq hos]
    · rintro rfl
      exact ⟨rfl, hdims, hread⟩

/-- **A point is elaborated to what it stands for**, if to anything. -/
theorem elaboratePoint_decides {s : Solution} (hs : s.Valid) (p : Point) :
    (elaboratePoint s p).Decides (p.Means s.grids) := by
  -- a point can only stand for a point of the grid that is found by its name
  have hgrid : ∀ q, p.Means s.grids q → s.grid? p.grid.name = some q.grid :=
    fun q hq => (hs.lookup _ _).mpr ⟨hq.grid, hq.name⟩
  unfold elaboratePoint
  cases hfind : s.grid? p.grid.name with
  | none =>
    refine Checked.decides_refused (by simp) fun q hq => ?_
    rw [hgrid q hq] at hfind
    exact absurd hfind (by simp)
  | some g =>
    obtain ⟨hmem, hname⟩ := (hs.lookup _ _).mp hfind
    have hsame : ∀ q, p.Means s.grids q → q.grid = g := by
      intro q hq
      rw [hgrid q hq] at hfind
      exact Option.some.inj hfind
    by_cases hlen : p.indices.length = g.dims.length
    · simp only [if_pos hlen]
      refine (elaborateIndices_decides g p hlen).congr fun q => ⟨?_, ?_⟩
      · rintro ⟨rfl, hdims, hoffsets⟩
        exact ⟨hmem, hname, hdims, hoffsets⟩
      · intro hq
        rw [← hsame q hq]
        exact ⟨rfl, hq.dims, hq.offsets⟩
    · simp only [if_neg hlen]
      refine Checked.decides_refused (by simp) fun q hq => hlen ?_
      have hdims := congrArg List.length hq.dims
      rw [hsame q hq] at hdims
      simpa [Grid.dimNames] using hdims

/-! ## Expressions -/

/-- **An expression is elaborated to what it stands for**, if to anything. -/
theorem elaborateExpr_decides {s : Solution} (hs : s.Valid) (e : Expr) :
    (elaborateExpr s e).Decides (e.Means s.grids) := by
  fun_induction elaborateExpr s e with
  | case1 v span =>
    refine Checked.decides_ok fun e' => ⟨fun h => ?_, fun h => h ▸ .number v span⟩
    cases h with
    | number => rfl
  | case2 p =>
    refine ((elaboratePoint_decides hs p).map Stencil.Expr.point).congr fun e' => ⟨?_, fun h => ?_⟩
    · rintro ⟨q, hq, rfl⟩
      exact .point hq
    · cases h with
      | point hq => exact ⟨_, hq, rfl⟩
  | case3 v inner span =>
    refine Checked.decides_ok fun e' => ⟨fun h => ?_, fun h => h ▸ .negNumber v inner span⟩
    cases h with
    | negNumber => rfl
    | neg _ hnumber _ => exact absurd rfl (hnumber v inner)
  -- the sign of anything but a number is a product, for which the function has a case of its own
  | case4 e span hnumber ih =>
    refine (ih.map _).congr fun e' => ⟨?_, fun h => ?_⟩
    · rintro ⟨e'', he, rfl⟩
      exact .neg span (fun v inner => hnumber v inner) he
    · cases h with
      | negNumber v inner => exact absurd rfl (hnumber v inner)
      | neg _ _ he => exact ⟨_, he, rfl⟩
  | case5 op lhs rhs span ihl ihr =>
    refine (ihl.both ihr _).congr fun e' => ⟨?_, fun h => ?_⟩
    · rintro ⟨l, r, hl, hr, rfl⟩
      exact .binary op span hl hr
    · cases h with
      | binary _ _ hl hr => exact ⟨_, _, hl, hr, rfl⟩

/-! ## When there is something to stand for -/

theorem forall₂_left {α β : Type} {R : α → β → Prop} {as : List α} {bs : List β}
    (h : List.Forall₂ R as bs) {a : α} (ha : a ∈ as) : ∃ b ∈ bs, R a b := by
  induction h with
  | nil => exact absurd ha List.not_mem_nil
  | cons hab _ ih =>
    rcases List.mem_cons.mp ha with rfl | ha
    · exact ⟨_, List.mem_cons_self, hab⟩
    · obtain ⟨b, hb, hR⟩ := ih ha
      exact ⟨b, List.mem_cons_of_mem _ hb, hR⟩

theorem forall₂_right {α β : Type} {R : α → β → Prop} {as : List α} {bs : List β}
    (h : List.Forall₂ R as bs) {b : β} (hb : b ∈ bs) : ∃ a ∈ as, R a b :=
  forall₂_left h.flip hb

/-- **A known point stands for something**, and no other point does. -/
theorem exists_pointMeans_iff {D : Declared} {grids : List Grid}
    (hgrids : List.Forall₂ (GridDecl.Means D.dims) D.grids grids) (p : Point) :
    (∃ q, p.Means grids q) ↔ p.Known D := by
  constructor
  · rintro ⟨q, hq⟩
    obtain ⟨g, hg, hmeans⟩ := forall₂_right hgrids hq.grid
    refine ⟨⟨g, hg, hmeans.name.symm.trans hq.name, hq.dims.trans hmeans.dims⟩, fun i hi => ?_⟩
    obtain ⟨o, _, ho⟩ := forall₂_left hq.offsets hi
    exact ⟨o.toInt, ho, o.le_toInt, o.toInt_lt⟩
  · rintro ⟨⟨g, hg, hname, hdims⟩, hoffsets⟩
    obtain ⟨grid, hmem, hmeans⟩ := forall₂_left hgrids hg
    have hread : List.Forall₂ (fun i o => i.offset.IsInt o.toInt) p.indices
        (p.indices.filterMap (·.offset.toInt64?)) :=
      forall₂_filterMap_offsets fun i hi => (Double.toInt64?_isSome_iff _).mpr (hoffsets i hi)
    have hlen : (p.indices.filterMap (·.offset.toInt64?)).length = grid.dims.length := by
      have hnames := congrArg List.length (hdims.trans hmeans.dims.symm)
      simp only [Grid.dimNames, List.length_map] at hnames
      exact hread.length_eq.symm.trans hnames
    exact ⟨⟨grid, _, hlen⟩, hmem, hmeans.name.trans hname, hdims.trans hmeans.dims.symm, hread⟩

/-- An expression stands for something exactly if all its points do. -/
theorem exists_exprMeans_iff (grids : List Grid) (e : Expr) :
    (∃ e', e.Means grids e') ↔ ∀ p ∈ e.points, ∃ q, p.Means grids q := by
  induction e with
  | number v span => simpa [Expr.points] using ⟨_, Expr.Means.number v span⟩
  | point p =>
    simp only [Expr.points, List.forall_mem_singleton]
    constructor
    · rintro ⟨_, ⟨⟩⟩
      exact ⟨_, ‹_›⟩
    · rintro ⟨q, hq⟩
      exact ⟨_, .point hq⟩
  | neg e span ih =>
    rw [Expr.points, ← ih]
    constructor
    · rintro ⟨_, h⟩
      cases h with
      | negNumber v inner => exact ⟨_, .number v inner⟩
      | neg _ _ he => exact ⟨_, he⟩
    · rintro ⟨e', he⟩
      by_cases hnumber : ∀ v inner, e ≠ .number v inner
      · exact ⟨_, .neg span hnumber he⟩
      · simp only [not_forall, not_not] at hnumber
        obtain ⟨v, inner, rfl⟩ := hnumber
        exact ⟨_, .negNumber v inner span⟩
  | binary op lhs rhs span ihl ihr =>
    rw [Expr.points, List.forall_mem_append, ← ihl, ← ihr]
    constructor
    · rintro ⟨_, h⟩
      cases h with
      | binary _ _ hl hr => exact ⟨⟨_, hl⟩, ⟨_, hr⟩⟩
    · rintro ⟨⟨_, hl⟩, ⟨_, hr⟩⟩
      exact ⟨_, .binary op span hl hr⟩

/-- The points of an expression stand for the points of what it stands for. -/
theorem Expr.Means.points {grids : List Grid} {e : Expr} {e' : Stencil.Expr}
    (h : e.Means grids e') : List.Forall₂ (Point.Means grids) e.points e'.points := by
  induction h with
  | number v span => exact .nil
  | point hq => exact .cons hq .nil
  | negNumber v inner span => exact .nil
  | neg span _ _ ih => exact ih
  | binary op span _ _ ihl ihr => exact List.rel_append ihl ihr

theorem Point.Means.mono {grids grids' : List Grid} (hsub : grids ⊆ grids') {p : Point}
    {q : Stencil.Point} (h : p.Means grids q) : p.Means grids' q :=
  ⟨hsub h.grid, h.name, h.dims, h.offsets⟩

theorem Expr.Means.mono {grids grids' : List Grid} (hsub : grids ⊆ grids') {e : Expr}
    {e' : Stencil.Expr} (h : e.Means grids e') : e.Means grids' e' := by
  induction h with
  | number v span => exact .number v span
  | point hq => exact .point (hq.mono hsub)
  | negNumber v inner span => exact .negNumber v inner span
  | neg span hnumber _ ih => exact .neg span hnumber ih
  | binary op span _ _ ihl ihr => exact .binary op span ihl ihr

/-! ## Steps -/

/-- A declared dimension is what its name says. -/
theorem eq_of_name {ds : List Dim} (h : (ds.map Dim.name).Nodup) {d d' : Dim} (hd : d ∈ ds)
    (hd' : d' ∈ ds) (hname : d.name = d'.name) : d = d' :=
  List.inj_on_of_nodup_map h hd hd' hname

/-- Declared dimensions are known by their names, also several of them in a row. -/
theorem eq_of_names {ds : List Dim} (h : (ds.map Dim.name).Nodup) (as : List Dim) :
    ∀ bs : List Dim, as ⊆ ds → bs ⊆ ds → as.map Dim.name = bs.map Dim.name → as = bs := by
  induction as with
  | nil => exact fun bs _ _ hnames => (List.map_eq_nil_iff.mp hnames.symm).symm
  | cons a as ih =>
    intro bs has hbs hnames
    obtain ⟨b, bs, rfl, hname, hnames⟩ := List.map_eq_cons_iff.mp hnames.symm
    obtain ⟨ha, has⟩ := List.cons_subset.mp has
    obtain ⟨hb, hbs⟩ := List.cons_subset.mp hbs
    rw [eq_of_name h ha hb hname.symm, ih bs has hbs hnames.symm]

/-- **A source point is at the step at which the point is that it stands for.** -/
theorem Point.Means.atStep_iff {D : Declared} (hdistinct : (D.dims.map Dim.name).Nodup)
    {grids : List Grid} {p : Point} {q : Stencil.Point} (h : p.Means grids q)
    (hdims : q.grid.dims ⊆ D.dims) (n : Int) :
    p.AtStep D n ↔ ∃ o, q.stepOffset? = some o ∧ o.toInt = n := by
  have hshape := q.grid.shape
  have hstep := q.grid.stepDim?_eq_some_iff
  obtain ⟨grid, offsets, hlen⟩ := q
  obtain ⟨id, indices, span⟩ := p
  obtain ⟨_, _, hnames, hoffsets⟩ := h
  simp only [Point.AtStep, Stencil.Point.stepOffset?, Stencil.Point.indices, Grid.stepDim?,
    Grid.dimNames] at *
  -- the first dimension is the only one that can be a step
  cases hd : grid.dims with
  | nil => exact absurd hd hshape.nonempty
  | cons d ds =>
    rw [hd] at hnames hdims hstep hshape
    cases hoffsets with
    | nil => exact absurd hnames (by simp)
    | @cons i o is os hoffset _ =>
      have hname : i.dim.name = d.name := by simpa using (List.cons.inj hnames).1
      simp only [List.zip_cons_cons]
      constructor
      · rintro ⟨j, hj, hdecl, hn⟩
        have hmem : j.dim.name ∈ (d :: ds).map Dim.name := hnames ▸ List.mem_map_of_mem hj
        obtain ⟨d', hd', hname'⟩ := List.mem_map.mp hmem
        have heq : d' = ⟨j.dim.name, .step⟩ := eq_of_name hdistinct (hdims hd') hdecl hname'
        have hhead := (hstep d').mpr ⟨hd', by rw [heq]; rfl⟩
        simp only [List.head?_cons, Option.filter_eq_some_iff, Option.some.injEq] at hhead
        obtain ⟨rfl, his⟩ := hhead
        have hij : j = i := by
          have hnodup : ((i :: is).map (·.dim.name)).Nodup := hnames ▸ hshape.distinct
          exact List.inj_on_of_nodup_map hnodup hj List.mem_cons_self (hname'.symm.trans hname.symm)
        rw [hij] at hn
        exact ⟨o, by rw [if_pos his], hoffset.unique hn⟩
      · rintro ⟨o', ho', rfl⟩
        split_ifs at ho' with his
        injection ho' with ho'
        refine ⟨i, List.mem_cons_self, ?_, ho' ▸ hoffset⟩
        have hd' : (⟨i.dim.name, .step⟩ : Dim) = d := by
          cases d
          simp only [Dim.isStep, beq_iff_eq] at his
          rw [hname, his]
        exact hd' ▸ hdims List.mem_cons_self

end Stencil.Source
