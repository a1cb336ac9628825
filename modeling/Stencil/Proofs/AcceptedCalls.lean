import Mathlib
import Stencil.Proofs.Validity

/-!
# Which calls are accepted

What a solution must be like to take one more grid (`Solution.AdmitsGrid`) or one more equation
(`Later`, and owning the grids of its points), said of the arguments and of the tables of the
solution alone. In every solution that calls can build, the calls are accepted exactly then, and an
accepted call adds what it was asked for at the end and changes nothing else (`calls_accepted_iff`).

The condition on a grid is checked in three places: whether its name is new, whether it is a grid at
all, and whether its dimensions go with those in use. The table of dimensions has to be coherent for
the last check to mean what it says, which it is by validity. Whether an equation is causal is found
out before its grids are looked up, so that an equation that is not causal is refused as such,
whatever grids it names (`Draft.equate_of_not_later`).
-/

namespace Stencil

/-! ## Grids -/

/-- What a name and dimensions must be like to make one more grid of the solution. -/
structure Solution.AdmitsGrid (s : Solution) (name : String) (dims : List Dim) : Prop where
  /-- They make a grid. -/
  shape : GridShape name dims
  /-- No grid has the name. -/
  fresh : ∀ g ∈ s.grids, g.name ≠ name
  /-- A name that is in use keeps its kind. -/
  kinds : ∀ d ∈ dims, ∀ d' ∈ s.dims, d'.name = d.name → d'.kind = d.kind
  /-- A new step dimension is the only one. -/
  oneStep : ∀ d ∈ dims, d.isStep = true → (∀ d' ∈ s.dims, d'.name ≠ d.name) →
    ∀ d' ∈ s.dims, d'.isStep = false

/-- Dimensions of different names are entered by appending those whose names are new. -/
theorem foldl_insertDim_eq_append (ds : List Dim) : ∀ es : List Dim, (ds.map Dim.name).Nodup →
    ds.foldl Solution.insertDim es = es ++ ds.filter (·.name ∉ es.map Dim.name) := by
  induction ds with
  | nil =>
    intro es _
    simp
  | cons d ds ih =>
    intro es hnodup
    rw [List.map_cons, List.nodup_cons] at hnodup
    obtain ⟨hd, hnodup⟩ := hnodup
    have hany : es.any (·.name == d.name) = true ↔ d.name ∈ es.map Dim.name := by
      simp [List.any_eq_true]
    rw [List.foldl_cons, ih _ hnodup, Solution.insertDim]
    by_cases hmem : d.name ∈ es.map Dim.name
    · rw [if_pos (hany.mpr hmem), List.filter_cons_of_neg (by simpa using hmem)]
    · rw [if_neg (fun h => hmem (hany.mp h)), List.filter_cons_of_pos (by simpa using hmem),
        List.append_assoc, List.singleton_append]
      -- the names that follow differ from this one, so that it makes none of them old
      have hrest : ds.filter (·.name ∉ (es ++ [d]).map Dim.name)
          = ds.filter (·.name ∉ es.map Dim.name) := by
        refine List.filter_congr fun d' hd' => ?_
        have hne : d'.name ≠ d.name := fun h => hd (h ▸ List.mem_map_of_mem hd')
        simp [hne]
      rw [hrest]

namespace Solution

variable {s : Solution}

/-- The solution with one more grid: its new dimensions are appended in order. -/
theorem withGrid_eq (s : Solution) (g : Grid) :
    s.withGrid g = { s with
      dims := s.dims ++ g.dims.filter (·.name ∉ s.dims.map Dim.name)
      grids := s.grids ++ [g] } := by
  rw [withGrid, foldl_insertDim_eq_append _ _ g.shape.distinct]

theorem grid?_eq_none_iff (name : String) : s.grid? name = none ↔ ∀ g ∈ s.grids, g.name ≠ name := by
  simp [grid?, List.find?_eq_none]

end Solution

namespace Draft

variable {d d' : Draft}

/-- **A draft of a valid solution takes a grid exactly if the solution admits it.** -/
theorem exists_declareGrid_iff (h : d.solution.Valid) (name : String) (dims : List Dim) :
    (∃ g d', d.declareGrid name dims = (.ok g, d')) ↔ d.solution.AdmitsGrid name dims := by
  have hcheck := Solution.conflict?_eq_none_iff h.coherent_dims
  simp only [declareGrid_eq_ok_iff]
  constructor
  · rintro ⟨g, d', hname, hmake, hconflict, _⟩
    obtain ⟨rfl, rfl⟩ := Grid.make_eq_ok_iff.mp hmake
    have hfits := fun dim hdim => (hcheck g.name dim).mp (hconflict dim hdim)
    exact ⟨g.shape, (Solution.grid?_eq_none_iff _).mp hname, fun dim hdim => (hfits dim hdim).1,
      fun dim hdim => (hfits dim hdim).2⟩
  · intro hadmits
    have hsound := (Grid.fault?_eq_none_iff name dims).mpr hadmits.shape
    refine ⟨⟨name, dims, hsound⟩, _, (Solution.grid?_eq_none_iff _).mpr hadmits.fresh,
      Grid.make_eq_ok_iff.mpr ⟨rfl, rfl⟩, ?_, rfl⟩
    intro dim hdim
    exact (hcheck name dim).mpr ⟨hadmits.kinds dim hdim, hadmits.oneStep dim hdim⟩

/-- A grid that is taken is the last one, after which its new dimensions are in use. -/
theorem eq_of_declareGrid {name : String} {dims : List Dim} {g : Grid}
    (h : d.declareGrid name dims = (.ok g, d')) :
    g.name = name ∧ g.dims = dims
      ∧ d' = Draft.record ⟨{ d.solution with
          dims := d.solution.dims ++ dims.filter (·.name ∉ d.solution.dims.map Dim.name)
          grids := d.solution.grids ++ [g] }, d.log⟩ (gridLine g) := by
  obtain ⟨_, hmake, _, rfl⟩ := declareGrid_eq_ok_iff.mp h
  obtain ⟨rfl, rfl⟩ := Grid.make_eq_ok_iff.mp hmake
  refine ⟨rfl, rfl, ?_⟩
  rw [advance, Solution.withGrid_eq]

end Draft

/-! ## Equations -/

/-- The left-hand side has an offset along a step dimension, and it is later than those of all
    points of the right-hand side that have one. -/
def Later (lhs : Point) (rhs : Expr) : Prop :=
  ∃ d l, (d, l) ∈ lhs.indices ∧ d.isStep = true
    ∧ ∀ p ∈ rhs.points, ∀ d' r, (d', r) ∈ p.indices → d'.isStep = true → r.toInt < l.toInt

/-- The step offset is the offset along the step dimension, wherever that would be listed. -/
theorem Point.stepOffset?_eq_some_iff (p : Point) (o : Int64) :
    p.stepOffset? = some o ↔ ∃ d, (d, o) ∈ p.indices ∧ d.isStep = true := by
  -- only the first index is looked at, which is enough because a step dimension comes first
  have hfirst : ∀ i x, p.indices[i]? = some x → x.1.isStep = true → i = 0 := by
    intro i x hx hstep
    obtain ⟨hdim, _⟩ := List.getElem?_zip_eq_some.mp hx
    exact p.grid.shape.stepFirst i x.1 hdim hstep
  unfold stepOffset?
  cases hindices : p.indices with
  | nil => simp
  | cons x xs =>
    obtain ⟨d, o'⟩ := x
    rw [hindices] at hfirst
    show (if d.isStep = true then some o' else none) = some o ↔ _
    constructor
    · intro h
      split_ifs at h with hstep
      obtain rfl := Option.some.inj h
      exact ⟨d, List.mem_cons_self, hstep⟩
    · rintro ⟨d', hd', hstep⟩
      obtain ⟨i, hi⟩ := List.mem_iff_getElem?.mp hd'
      obtain rfl := hfirst i _ hi hstep
      obtain ⟨rfl, rfl⟩ := Prod.mk.inj (Option.some.inj hi)
      rw [if_pos hstep]

theorem causal_iff_later (lhs : Point) (rhs : Expr) : Causal lhs rhs ↔ Later lhs rhs := by
  simp only [Causal, Later, Point.stepOffset?_eq_some_iff]
  constructor
  · rintro ⟨l, ⟨d, hd, hstep⟩, hlater⟩
    exact ⟨d, l, hd, hstep, fun p hp d' r hr hstep' => hlater p hp r ⟨d', hr, hstep'⟩⟩
  · rintro ⟨d, l, hd, hstep, hlater⟩
    refine ⟨l, ⟨d, hd, hstep⟩, ?_⟩
    rintro p hp r ⟨d', hr, hstep'⟩
    exact hlater p hp d' r hr hstep'

theorem Solution.owns_iff (s : Solution) (p : Point) :
    s.owns p = true ↔ s.grid? p.grid.name = some p.grid := by
  simp [owns]

namespace Draft

variable {d d' : Draft} {lhs : Point} {rhs : Expr}

/-- An equation that is taken is the last one. -/
theorem eq_of_equate {e : Equation} (h : d.equate lhs rhs = (.ok e, d')) :
    e.lhs = lhs ∧ e.rhs = rhs
      ∧ d' = Draft.record ⟨{ d.solution with equations := d.solution.equations ++ [e] }, d.log⟩
          (equationLine d.solution.equations.length e) := by
  obtain ⟨hlhs, hrhs, hadd⟩ := equate_eq_ok_iff.mp h
  obtain ⟨_, rfl⟩ := addEquation_eq_ok_iff.mp hadd
  exact ⟨hlhs, hrhs, rfl⟩

/-- **A draft takes an equation exactly if it is causal and over the draft's own grids.** -/
theorem exists_equate_iff (d : Draft) (lhs : Point) (rhs : Expr) :
    (∃ e d', d.equate lhs rhs = (.ok e, d')) ↔
      Later lhs rhs ∧ ∀ p ∈ lhs :: rhs.points, d.solution.grid? p.grid.name = some p.grid := by
  simp only [equate_eq_ok_iff, addEquation_eq_ok_iff, Solution.owns_iff]
  constructor
  · rintro ⟨e, d', rfl, rfl, howns, _⟩
    exact ⟨(causal_iff_later _ _).mp e.causal, howns⟩
  · rintro ⟨hlater, hgrids⟩
    have hsound := (Equation.fault?_eq_none_iff lhs rhs).mpr ((causal_iff_later _ _).mpr hlater)
    exact ⟨⟨lhs, rhs, hsound⟩, _, rfl, rfl, hgrids, rfl⟩

/-- **An equation that is not causal is refused as such**, whatever grids it names. -/
theorem equate_of_not_later (d : Draft) (h : ¬ Later lhs rhs) :
    ∃ fault, d.equate lhs rhs = (.error (.causality (equationText lhs rhs) fault), d) := by
  cases hrun : d.equate lhs rhs with
  | mk r d' =>
    cases r with
    | ok e =>
      obtain ⟨rfl, rfl, _⟩ := equate_eq_ok_iff.mp hrun
      exact absurd ((causal_iff_later _ _).mp e.causal) h
    | error err =>
      obtain ⟨rfl, hfault | ⟨hsound, _⟩⟩ := equate_refused hrun
      · obtain ⟨fault, _, rfl⟩ := Option.map_eq_some_iff.mp hfault
        exact ⟨fault, rfl⟩
      · exact absurd ((causal_iff_later _ _).mp ((Equation.fault?_eq_none_iff _ _).mp hsound)) h

/-- **Grids and equations are taken exactly when they should be, and change one thing.** After any
    calls, a grid is taken if and only if the solution admits it; then it is the last grid, and
    those of its dimensions whose names are new are the last ones in use, in its order. An equation
    is taken if and only if its left-hand side is later than all that it reads and every grid in it
    is the one that the solution has of that name; then it is the last equation. Nothing else
    changes but that a line is recorded. An equation that is not later than what it reads is refused
    for that, whether or not its grids are the solution's. -/
theorem calls_accepted_iff (name : String) (log : Option Sink) (calls : List Call) :
    let d := (Draft.new name log).after calls
    let s := d.solution
    (∀ (gridName : String) (dims : List Dim),
      ((∃ g d', d.declareGrid gridName dims = (.ok g, d')) ↔ s.AdmitsGrid gridName dims)
      ∧ ∀ g d', d.declareGrid gridName dims = (.ok g, d') →
          g.name = gridName ∧ g.dims = dims
          ∧ d' = Draft.record ⟨{ s with
              dims := s.dims ++ dims.filter (·.name ∉ s.dims.map Dim.name)
              grids := s.grids ++ [g] }, d.log⟩ (gridLine g))
    ∧ ∀ (lhs : Point) (rhs : Expr),
      ((∃ e d', d.equate lhs rhs = (.ok e, d')) ↔
          Later lhs rhs ∧ ∀ p ∈ lhs :: rhs.points, s.grid? p.grid.name = some p.grid)
      ∧ (∀ e d', d.equate lhs rhs = (.ok e, d') →
          e.lhs = lhs ∧ e.rhs = rhs
          ∧ d' = Draft.record ⟨{ s with equations := s.equations ++ [e] }, d.log⟩
              (equationLine s.equations.length e))
      ∧ (¬ Later lhs rhs →
          ∃ fault, d.equate lhs rhs = (.error (.causality (equationText lhs rhs) fault), d)) := by
  intro d s
  constructor
  · intro gridName dims
    exact ⟨exists_declareGrid_iff (valid_after name log calls) gridName dims,
      fun g d' h => eq_of_declareGrid h⟩
  · intro lhs rhs
    exact ⟨d.exists_equate_iff lhs rhs, fun e d' h => eq_of_equate h,
      fun h => d.equate_of_not_later h⟩

end Draft

end Stencil
