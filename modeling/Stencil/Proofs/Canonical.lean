import Mathlib
import Stencil.Manifest
import Stencil.Proofs.JsonText
import Stencil.Proofs.ModelText
import Stencil.Proofs.Validity

/-!
# The canonical text identifies the solution

The canonical text is JSON, which tells the manifest (`Json.compact_injective`). The manifest has
the grids in full, but equations as texts. A valid solution finds the grids of its points by their
names, and so the texts tell the points and the expressions (`Manifest.ofEquations_injective`). Two
solutions with one canonical text are one solution, and no format can tell them apart.

The argument goes from the outside inwards, one layer of text at a time, and each layer is injective
on what the layer inside it can produce. The innermost one, where an expression is read back from
its text, is the only one with conditions: the grids must be known, and no constant may be a NaN,
since all of them are written alike.
-/

namespace Stencil

/-! ## Grids -/

namespace Manifest

/-- A dimension is told by its name and its kind, both of which are written. -/
theorem ofDim_injective : Function.Injective ofDim := by
  rintro ⟨name, kind⟩ ⟨name', kind'⟩ h
  simp only [ofDim, Json.object.injEq, List.cons.injEq, Prod.mk.injEq, Json.text.injEq, true_and,
    and_true] at h
  obtain ⟨rfl, hkind⟩ := h
  cases kind <;> cases kind' <;> simp_all [DimKind.text]

theorem ofGrid_injective : Function.Injective ofGrid := by
  rintro ⟨name, dims, hg⟩ ⟨name', dims', hg'⟩ h
  simp only [ofGrid, Json.object.injEq, List.cons.injEq, Prod.mk.injEq, Json.text.injEq,
    Json.list.injEq, true_and, and_true] at h
  obtain ⟨rfl, hdims⟩ := h
  obtain rfl := ofDim_injective.list_map hdims
  rfl

/-! ## Equations -/

/-- What the texts of an equation can be read with. -/
def EquationReadable (grid? : String → Option Grid) (e : Equation) : Prop :=
  grid? e.lhs.grid.name = some e.lhs.grid ∧ e.rhs.Readable grid?

/-- An equation is told by its text, where the grids of its points are known by their names. -/
theorem ofEquation_injective {grid? : String → Option Grid} {e e' : Equation}
    (he : EquationReadable grid? e) (he' : EquationReadable grid? e') {i i' : Nat}
    (h : ofEquation i e = ofEquation i' e') : e = e' := by
  obtain ⟨lhs, rhs, hsound⟩ := e
  obtain ⟨lhs', rhs', hsound'⟩ := e'
  simp only [ofEquation, Json.object.injEq, List.cons.injEq, Prod.mk.injEq, Json.text.injEq,
    true_and] at h
  obtain ⟨_, hlhs, hrhs, _⟩ := h
  have hends : Expr.Ends [] := fun c hc => absurd hc (by simp)
  -- a point is told as the expression that it is
  have hpoint : ∀ {p : Point}, grid? p.grid.name = some p.grid →
      (Expr.point p).Readable grid? := by
    intro p hp
    exact ⟨fun q hq => by rw [List.mem_singleton.mp hq]; exact hp,
      fun v hv => absurd hv List.not_mem_nil⟩
  obtain ⟨hp, _⟩ := Expr.text_told (.point lhs) (.point lhs') [] [] (hpoint he.1) (hpoint he'.1)
    hends hends (congrArg (fun t => t.toList ++ []) hlhs)
  obtain ⟨hr, _⟩ := Expr.text_told rhs rhs' [] [] he.2 he'.2 hends hends
    (congrArg (fun t => t.toList ++ []) hrhs)
  injection hp with hp
  subst hp hr
  rfl

/-- **Equations can be told from their entries**, if their grids are known. -/
theorem ofEquations_injective {grid? : String → Option Grid} (es : List Equation) :
    ∀ (es' : List Equation) (i : Nat), (∀ e ∈ es, EquationReadable grid? e) →
      (∀ e ∈ es', EquationReadable grid? e) → ofEquations i es = ofEquations i es' → es = es' := by
  induction es with
  | nil =>
    intro es' i _ _ h
    cases es' with
    | nil => rfl
    | cons e' es' => exact absurd h (by simp [ofEquations])
  | cons e es ih =>
    intro es' i hes hes' h
    cases es' with
    | nil => exact absurd h (by simp [ofEquations])
    | cons e' es' =>
      obtain ⟨he, hes⟩ := List.forall_mem_cons.mp hes
      obtain ⟨he', hes'⟩ := List.forall_mem_cons.mp hes'
      obtain ⟨hfirst, hrest⟩ := List.cons.inj h
      rw [ofEquation_injective he he' hfirst, ih es' (i + 1) hes hes' hrest]

end Manifest

/-! ## Solutions -/

namespace Solution

variable {s s' : Solution}

/-- None of the constants is a NaN. -/
def NoNaN (s : Solution) : Prop :=
  ∀ e ∈ s.equations, ∀ v ∈ e.rhs.constants, v.isNaN = false

/-- The equations of a valid solution can be read back, as their grids are found among the
    solution's own. -/
theorem Valid.equationReadable (h : s.Valid) (hnan : s.NoNaN) :
    ∀ e ∈ s.equations, Manifest.EquationReadable s.grid? e := by
  intro e he
  have hpoints := List.forall_mem_cons.mp (h.points e he)
  exact ⟨hpoints.1.1, fun p hp => (hpoints.2 p hp).1, hnan e he⟩

/-- **Valid solutions with one canonical text are one.** -/
theorem Valid.eq_of_canonical_eq (h : s.Valid) (h' : s'.Valid) (hnan : s.NoNaN) (hnan' : s'.NoNaN)
    (htext : s.canonical = s'.canonical) : s = s' := by
  have hmanifest := Json.compact_injective htext
  simp only [manifest, Manifest.members, Json.object.injEq, List.cons.injEq, Prod.mk.injEq,
    Json.text.injEq, Json.number.injEq, Json.list.injEq, true_and, and_true] at hmanifest
  obtain ⟨hname, hwidth, _, _, hgrids, hequations⟩ := hmanifest
  have hgrids : s.grids = s'.grids := Manifest.ofGrid_injective.list_map hgrids
  -- the table follows from the grids, and the grids are found in the same way
  have hdims : s.dims = s'.dims := by
    rw [h.table, h'.table, listedDims, listedDims, hgrids]
  have hlookup : s'.grid? = s.grid? := by
    funext name
    rw [grid?, grid?, hgrids]
  have hreadable := h'.equationReadable hnan'
  rw [hlookup] at hreadable
  have hequations := Manifest.ofEquations_injective _ _ 0 (h.equationReadable hnan) hreadable
    hequations
  obtain ⟨name, dims, grids, equations, width⟩ := s
  obtain ⟨name', dims', grids', equations', width'⟩ := s'
  simp only at hname hdims hgrids hequations hwidth
  rw [hname, hdims, hgrids, hequations, width_eq_of_bytes hwidth]

end Solution

/-- **The canonical text identifies the solution.** Two sessions that leave solutions without NaN and
    with one canonical text leave one solution: the same name, width, table of dimensions, grids and
    equations, constant for constant and offset for offset. So every format that comes with the
    compiler renders them alike. -/
theorem Draft.canonical_identifies_solution (name name' : String) (log log' : Option Sink)
    (calls calls' : List Call)
    (hnan : ((Draft.new name log).after calls).solution.NoNaN)
    (hnan' : ((Draft.new name' log').after calls').solution.NoNaN)
    (htext : ((Draft.new name log).after calls).solution.canonical
      = ((Draft.new name' log').after calls').solution.canonical) :
    let s := ((Draft.new name log).after calls).solution
    let s' := ((Draft.new name' log').after calls').solution
    s = s' ∧ ∀ share, ∀ f ∈ (Registry.builtin share).formats, f.render s = f.render s' := by
  intro s s'
  have hsame : s = s' :=
    (valid_after name log calls).eq_of_canonical_eq (valid_after name' log' calls') hnan hnan' htext
  exact ⟨hsame, fun share f _ => by rw [hsame]⟩

/-- An equation over a grid named like an infinite constant, with a negative zero and the least
    offset. -/
def Equation.infinite : Equation :=
  let g : Grid := ⟨"inf", [⟨"n", .step⟩, ⟨"i", .domain⟩], by decide⟩
  let product : Expr := .binary .mul (.const (.infinity false)) (.const Double.zero.neg)
  let least : Point := ⟨g, [0, Int64.minValue], by decide⟩
  ⟨⟨g, [1, 0], by decide⟩, .binary .sub product (.point least), by decide⟩

/-- A session that adds the equation. -/
def Call.infinite : List Call :=
  [.declareGrid "inf" [⟨"n", .step⟩, ⟨"i", .domain⟩], .addEquation .infinite]

/-- The same session with refused calls in it. -/
def Call.infiniteRefused : List Call :=
  .declareGrid "2d" [] :: Call.infinite ++ [.setElementBytes 3]

theorem Draft.canonical_identifies_solution_refused :
    let s := ((Draft.new "\"λ\"\n" none).after Call.infinite).solution
    let s' := ((Draft.new "\"λ\"\n" none).after Call.infiniteRefused).solution
    s.NoNaN ∧ s'.NoNaN ∧ s.canonical = s'.canonical
      ∧ s = s' ∧ ∀ share, ∀ f ∈ (Registry.builtin share).formats, f.render s = f.render s' := by
  have hnan : ((Draft.new "\"λ\"\n" none).after Call.infinite).solution.NoNaN := by
    unfold Solution.NoNaN
    decide
  have hnan' : ((Draft.new "\"λ\"\n" none).after Call.infiniteRefused).solution.NoNaN := by
    unfold Solution.NoNaN
    decide
  have htext : ((Draft.new "\"λ\"\n" none).after Call.infinite).solution.canonical
      = ((Draft.new "\"λ\"\n" none).after Call.infiniteRefused).solution.canonical :=
    congrArg Solution.canonical (by decide)
  exact ⟨hnan, hnan', htext, canonical_identifies_solution "\"λ\"\n" "\"λ\"\n" none none Call.infinite
    Call.infiniteRefused hnan hnan' htext⟩

end Stencil
