import Mathlib
import Stencil.Model.Equation

/-!
# What grids and equations are

Grids and equations carry the fact that a check found no fault in them. Here the checks are
unrolled: `Grid.fault?` passes exactly the names and dimensions of a `GridShape`, and
`Equation.fault?` exactly the sides that are `Causal`. Later proofs use these two predicates and
never open the checks.

A check looks for the first fault and names it, so that its order of questions matters for the
message. For what passes, the order is gone: the two predicates are lists of conditions. An
identifier is a letter and then letters and digits; a grid has dimensions with different names and
its step dimension, if any, in front; an equation writes a later step than every step it reads.

Steps are compared as integers of 64 bits, and the latest step of an expression is found by a fold
over its points. That the fold is below a bound exactly if every point is
(`Expr.latestStep?_lt_iff`) is where the recursion over the expression is done once and for all.
-/

namespace Stencil

/-! ## Identifiers -/

/-- A letter or an underscore, then letters, digits and underscores, of the ASCII alphabet. -/
def IsIdentifier (s : String) : Prop :=
  ∃ c cs, s.toList = c :: cs ∧ (c.isAlpha = true ∨ c = '_')
    ∧ ∀ d ∈ cs, d.isAlphanum = true ∨ d = '_'

theorem isLetter_iff (c : Char) : isLetter c = true ↔ c.isAlpha = true ∨ c = '_' := by
  simp only [isLetter, Char.isAlpha, Char.isUpper, Char.isLower, Bool.or_eq_true, Bool.and_eq_true,
    decide_eq_true_eq, beq_iff_eq, Char.le_def]
  tauto

theorem isLetterOrDigit_iff (c : Char) :
    isLetterOrDigit c = true ↔ c.isAlphanum = true ∨ c = '_' := by
  have hdigit : isDigit c = c.isDigit := by
    simp only [isDigit, Char.isDigit, Char.le_def]
  rw [isLetterOrDigit, Bool.or_eq_true, isLetter_iff, hdigit, Char.isAlphanum, Bool.or_eq_true]
  tauto

theorem isIdentifier_iff (s : String) : isIdentifier s = true ↔ IsIdentifier s := by
  unfold isIdentifier IsIdentifier
  cases s.toList with
  | nil => simp
  | cons c cs =>
    simp only [Bool.and_eq_true, isLetter_iff, List.all_eq_true, isLetterOrDigit_iff]
    constructor
    · rintro ⟨hc, hcs⟩
      exact ⟨c, cs, rfl, hc, hcs⟩
    · rintro ⟨c', cs', he, hc, hcs⟩
      injection he with hhead htail
      exact ⟨hhead ▸ hc, htail ▸ hcs⟩

/-! ## Grids -/

/-- What a name and a list of dimensions must be like to make a grid. -/
structure GridShape (name : String) (dims : List Dim) : Prop where
  /-- The name is an identifier. -/
  name : IsIdentifier name
  /-- There is a dimension. -/
  nonempty : dims ≠ []
  /-- The names of the dimensions are identifiers. -/
  dimNames : ∀ d ∈ dims, IsIdentifier d.name
  /-- No name is listed twice. -/
  distinct : (dims.map Dim.name).Nodup
  /-- Only the first dimension may be a step dimension. -/
  stepFirst : ∀ i d, dims[i]? = some d → d.isStep = true → i = 0

/-- The check of the dimensions that follow those named `seen`. -/
theorem dimFault?_eq_none_iff (grid : String) (dims : List Dim) :
    ∀ seen, dimFault? grid seen dims = none ↔
      (∀ d ∈ dims, IsIdentifier d.name) ∧ (dims.map Dim.name).Nodup
        ∧ (∀ d ∈ dims, d.name ∉ seen)
        ∧ ∀ i d, dims[i]? = some d → d.isStep = true → i = 0 ∧ seen = [] := by
  induction dims with
  | nil => intro seen; simp [dimFault?]
  | cons d ds ih =>
    intro seen
    rw [dimFault?]
    constructor
    · intro h
      split_ifs at h with hid hseen hstep
      obtain ⟨hnames, hnodup, hfresh, hlater⟩ := (ih _).mp h
      rw [Bool.not_eq_true, Bool.not_eq_false'] at hid
      refine ⟨?_, ?_, ?_, ?_⟩
      · exact List.forall_mem_cons.mpr ⟨(isIdentifier_iff _).mp hid, hnames⟩
      · rw [List.map_cons, List.nodup_cons]
        refine ⟨?_, hnodup⟩
        intro hmem
        obtain ⟨d', hd', hname⟩ := List.mem_map.mp hmem
        exact hfresh d' hd' (by rw [hname]; simp)
      · refine List.forall_mem_cons.mpr ⟨hseen, ?_⟩
        intro d' hd' hmem
        exact hfresh d' hd' (List.mem_append_left _ hmem)
      · intro i d' hget hd'
        cases i with
        | zero =>
          have hdd : d = d' := by simpa using hget
          subst hdd
          simpa [hd'] using hstep
        | succ i => exact absurd (hlater i d' (by simpa using hget) hd').2 (by simp)
    · rintro ⟨hnames, hnodup, hfresh, hsteps⟩
      obtain ⟨hid, hnames⟩ := List.forall_mem_cons.mp hnames
      obtain ⟨hseen, hfresh⟩ := List.forall_mem_cons.mp hfresh
      rw [List.map_cons, List.nodup_cons] at hnodup
      rw [if_neg (by simpa using (isIdentifier_iff _).mpr hid), if_neg hseen, if_neg, ih]
      · refine ⟨hnames, hnodup.2, ?_, ?_⟩
        · intro d' hd' hmem
          rcases List.mem_append.mp hmem with hmem | hmem
          · exact hfresh d' hd' hmem
          · exact hnodup.1 (List.mem_singleton.mp hmem ▸ List.mem_map_of_mem hd')
        · intro i d' hget hd'
          exact absurd (hsteps (i + 1) d' (by simpa using hget) hd').1 (by simp)
      · intro hstep
        rw [Bool.and_eq_true] at hstep
        have hnil := (hsteps 0 d rfl hstep.1).2
        rw [hnil] at hstep
        exact absurd hstep.2 (by simp)

/-- **A name and dimensions make a grid exactly if they have the shape of one.** -/
theorem Grid.fault?_eq_none_iff (name : String) (dims : List Dim) :
    Grid.fault? name dims = none ↔ GridShape name dims := by
  unfold Grid.fault?
  constructor
  · intro h
    split_ifs at h with hid hempty
    obtain ⟨hnames, hnodup, _, hsteps⟩ := (dimFault?_eq_none_iff name dims []).mp h
    rw [Bool.not_eq_true, Bool.not_eq_false'] at hid
    exact ⟨(isIdentifier_iff _).mp hid, by simpa using hempty, hnames, hnodup,
      fun i d hget hd => (hsteps i d hget hd).1⟩
  · intro h
    rw [if_neg (by simpa using (isIdentifier_iff _).mpr h.name),
      if_neg (by simpa using h.nonempty), dimFault?_eq_none_iff]
    exact ⟨h.dimNames, h.distinct, fun _ _ => List.not_mem_nil,
      fun i d hget hd => ⟨h.stepFirst i d hget hd, rfl⟩⟩

theorem Grid.shape (g : Grid) : GridShape g.name g.dims := (Grid.fault?_eq_none_iff _ _).mp g.sound

/-- A step dimension of a grid is its first dimension. -/
theorem Grid.stepDim?_eq_some_iff (g : Grid) (d : Dim) :
    g.stepDim? = some d ↔ d ∈ g.dims ∧ d.isStep = true := by
  rw [Grid.stepDim?, Option.filter_eq_some_iff]
  constructor
  · rintro ⟨hhead, hstep⟩
    exact ⟨List.mem_of_mem_head? hhead, hstep⟩
  · rintro ⟨hmem, hstep⟩
    obtain ⟨i, hget⟩ := List.mem_iff_getElem?.mp hmem
    have hi := g.shape.stepFirst i d hget hstep
    subst hi
    exact ⟨by rw [List.head?_eq_getElem?]; exact hget, hstep⟩

/-! ## Points -/

/-- A point has a step offset exactly if its grid has a step dimension. -/
theorem Point.stepOffset?_isSome_iff (p : Point) :
    (∃ o, p.stepOffset? = some o) ↔ ∃ d ∈ p.grid.dims, d.isStep = true := by
  obtain ⟨g, offsets, hlen⟩ := p
  have hshape := g.shape
  simp only [Point.stepOffset?, Point.indices]
  match hd : g.dims, offsets, hlen with
  | [], offsets, _ => simp
  | d :: ds, [], hlen => simp at hlen
  | d :: ds, o :: os, _ =>
    rw [hd] at hshape
    simp only [List.zip_cons_cons]
    constructor
    · rintro ⟨o', ho'⟩
      split_ifs at ho' with hstep
      exact ⟨d, List.mem_cons_self, hstep⟩
    · rintro ⟨d', hmem, hstep⟩
      obtain ⟨i, hget⟩ := List.mem_iff_getElem?.mp hmem
      have hi := hshape.stepFirst i d' hget hstep
      subst hi
      have hdd : d = d' := by simpa using hget
      exact ⟨o, by rw [hdd, if_pos hstep]⟩

/-! ## Equations -/

theorem Expr.laterOf_lt_iff (a b : Int64) (l : Int) :
    (Expr.laterOf a b).toInt < l ↔ a.toInt < l ∧ b.toInt < l := by
  unfold Expr.laterOf
  split_ifs with h
  · constructor
    · intro hb; exact ⟨by omega, hb⟩
    · intro hb; exact hb.2
  · constructor
    · intro ha; exact ⟨ha, by omega⟩
    · intro ha; exact ha.1

/-- The latest of some offsets is below a bound exactly if all of them are. -/
theorem Expr.foldl_laterOf_lt_iff (os : List Int64) (l : Int) :
    ∀ m, (os.foldl Expr.laterOf m).toInt < l ↔ m.toInt < l ∧ ∀ o ∈ os, o.toInt < l := by
  induction os with
  | nil => intro m; simp
  | cons o os ih =>
    intro m
    rw [List.foldl_cons, ih, Expr.laterOf_lt_iff, List.forall_mem_cons, and_assoc]

/-- A search that takes the later of two steps once it has one. -/
theorem Expr.foldl_latest_some {f : Option Int64 → Int64 → Option Int64}
    (hf : ∀ m o, f (some m) o = some (Expr.laterOf m o)) (os : List Int64) :
    ∀ m, os.foldl f (some m) = some (os.foldl Expr.laterOf m) := by
  induction os with
  | nil => intro m; rfl
  | cons o os ih =>
    intro m
    rw [List.foldl_cons, hf, ih, List.foldl_cons]

/-- The latest step is before `l` exactly if all steps are. -/
theorem Expr.latestStep?_lt_iff (e : Expr) (l : Int) :
    (∀ m, e.latestStep? = some m → m.toInt < l)
      ↔ ∀ p ∈ e.points, ∀ r, p.stepOffset? = some r → r.toInt < l := by
  have hsteps : (∀ p ∈ e.points, ∀ r, p.stepOffset? = some r → r.toInt < l)
      ↔ ∀ o ∈ e.points.filterMap Point.stepOffset?, o.toInt < l := by
    simp only [List.mem_filterMap]
    constructor
    · rintro h o ⟨p, hp, ho⟩
      exact h p hp o ho
    · intro h p hp r hr
      exact h r ⟨p, hp, hr⟩
  rw [hsteps, Expr.latestStep?]
  cases e.points.filterMap Point.stepOffset? with
  | nil => simp
  | cons o os =>
    rw [List.foldl_cons, Expr.foldl_latest_some (fun _ _ => rfl), List.forall_mem_cons,
      ← Expr.foldl_laterOf_lt_iff]
    simp

/-- The left-hand side has a step dimension and is later than every point of the right-hand side
    that has one. -/
def Causal (lhs : Point) (rhs : Expr) : Prop :=
  ∃ l, lhs.stepOffset? = some l ∧ ∀ p ∈ rhs.points, ∀ r, p.stepOffset? = some r → r.toInt < l.toInt

/-- **Two sides make an equation exactly if they are causal.** -/
theorem Equation.fault?_eq_none_iff (lhs : Point) (rhs : Expr) :
    Equation.fault? lhs rhs = none ↔ Causal lhs rhs := by
  rw [Equation.fault?, Option.map_eq_none_iff, causalityFault?, Causal]
  cases lhs.stepOffset? with
  | none => simp
  | some l =>
    simp only [Option.some.injEq, exists_eq_left', ← Expr.latestStep?_lt_iff]
    cases rhs.latestStep? with
    | none => simp
    | some r => simp

theorem Equation.causal (e : Equation) : Causal e.lhs e.rhs :=
  (Equation.fault?_eq_none_iff _ _).mp e.sound

end Stencil
