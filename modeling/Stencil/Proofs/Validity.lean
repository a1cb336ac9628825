import Mathlib
import Stencil.Proofs.Session

/-!
# Every session leaves a valid solution

A new grid is compared with the table of dimensions only, never with the other grids. So that grids
agree on the kinds of their dimensions, and on the one step dimension, rests on the table being
exactly the dimensions of the grids, each where it was first used. `Solution.Valid` carries these
facts together; each `Solution.Change` keeps them, and so does every session (`after_valid`).

The facts need each other. That the table says what a grid may be called along a dimension
(`conflict?_eq_none_iff`) needs names in the table to be unique; that they are unique needs the
dimensions of all grids to agree; and that a new grid agrees with all others needs the table to have
all of their dimensions. They are one invariant because none of them is kept without the others.

Validity is what later modules assume of a solution, and the only thing they do. They never ask how
a solution was made.
-/

namespace Stencil

/-! ## Lists of dimensions -/

/-- Dimensions of one name are one dimension. -/
def Coherent (ds : List Dim) : Prop := ∀ d ∈ ds, ∀ d' ∈ ds, d.name = d'.name → d = d'

theorem Coherent.of_subset {ds es : List Dim} (h : Coherent es) (hsub : ds ⊆ es) : Coherent ds :=
  fun d hd d' hd' hname => h d (hsub hd) d' (hsub hd') hname

/-- One more element is new or was there. -/
theorem eraseDups_concat (ds : List Dim) (d : Dim) :
    (ds ++ [d]).eraseDups = if d ∈ ds then ds.eraseDups else ds.eraseDups ++ [d] := by
  rw [List.eraseDups_append]
  by_cases h : d ∈ ds
  · simp [h, List.removeAll]
  · simp [h, List.removeAll, List.eraseDups_cons]

/-- Entering a dimension into the table is appending it to the dimensions listed. -/
theorem insertDim_eraseDups {ds : List Dim} {d : Dim}
    (h : ∀ d' ∈ ds, d'.name = d.name → d' = d) :
    Solution.insertDim ds.eraseDups d = (ds ++ [d]).eraseDups := by
  rw [eraseDups_concat, Solution.insertDim]
  by_cases hmem : d ∈ ds
  · have hany : ds.eraseDups.any (·.name == d.name) = true :=
      List.any_eq_true.mpr ⟨d, List.mem_eraseDups.mpr hmem, by simp⟩
    rw [if_pos hany, if_pos hmem]
  · have hany : ¬ ds.eraseDups.any (·.name == d.name) = true := by
      intro hany
      obtain ⟨d', hd', hname⟩ := List.any_eq_true.mp hany
      have hd' := List.mem_eraseDups.mp hd'
      have he : d' = d := h d' hd' (by simpa using hname)
      exact hmem (he ▸ hd')
    rw [if_neg hany, if_neg hmem]

/-- Entering the dimensions of a grid into a table of first uses gives the table of first uses with
    that grid. -/
theorem foldl_insertDim (ds : List Dim) :
    ∀ es, Coherent (es ++ ds) →
      ds.foldl Solution.insertDim es.eraseDups = (es ++ ds).eraseDups := by
  induction ds with
  | nil => intro es _; simp
  | cons d ds ih =>
    intro es hcoh
    have hd : ∀ d' ∈ es, d'.name = d.name → d' = d :=
      fun d' hd' => hcoh d' (List.mem_append_left _ hd') d (by simp)
    have happ : es ++ d :: ds = (es ++ [d]) ++ ds := by simp
    rw [List.foldl_cons, insertDim_eraseDups hd, ih (es ++ [d]) (happ ▸ hcoh), happ]

theorem find?_eraseDups (p : Dim → Bool) (ds : List Dim) : ds.eraseDups.find? p = ds.find? p := by
  induction ds using List.reverseRecOn with
  | nil => rfl
  | append_singleton ds d ih =>
    rw [eraseDups_concat, List.find?_append]
    split_ifs with h
    · rw [ih]
      cases hf : ds.find? p with
      | some d' => rfl
      | none =>
        have hd : p d = false := by simpa using List.find?_eq_none.mp hf d h
        simp [hd]
    · rw [List.find?_append, ih]

theorem filter_eraseDups (p : Dim → Bool) (ds : List Dim) :
    ds.eraseDups.filter p = (ds.filter p).eraseDups := by
  induction ds using List.reverseRecOn with
  | nil => rfl
  | append_singleton ds d ih =>
    rw [eraseDups_concat, List.filter_append]
    by_cases hp : p d = true
    · have hone : [d].filter p = [d] := by simp [hp]
      rw [hone, eraseDups_concat]
      split_ifs with h h' h'
      · exact ih
      · exact absurd (List.mem_filter.mpr ⟨h, hp⟩) h'
      · exact absurd (List.mem_filter.mp h').1 h
      · rw [List.filter_append, ih, hone]
    · have hnone : [d].filter p = [] := by simp [hp]
      rw [hnone, List.append_nil]
      split_ifs with h
      · exact ih
      · rw [List.filter_append, hnone, List.append_nil, ih]

theorem nodup_eraseDups (ds : List Dim) : ds.eraseDups.Nodup := by
  induction ds using List.reverseRecOn with
  | nil => exact List.nodup_nil
  | append_singleton ds d ih =>
    rw [eraseDups_concat]
    split_ifs with h
    · exact ih
    · have hnew : d ∉ ds.eraseDups := fun hd => h (List.mem_eraseDups.mp hd)
      exact ih.append (List.nodup_singleton d) (List.disjoint_singleton.mpr hnew)

namespace Solution

variable {s : Solution}

/-! ## Validity -/

/-- The dimensions of the grids, in the order of declaration and as often as they are used. -/
def listedDims (s : Solution) : List Dim := s.grids.flatMap Grid.dims

/-- **A valid solution.** -/
structure Valid (s : Solution) : Prop where
  /-- No two grids have one name. -/
  gridNames : (s.grids.map Grid.name).Nodup
  /-- Grids are found by their names. -/
  lookup : ∀ name g, s.grid? name = some g ↔ g ∈ s.grids ∧ g.name = name
  /-- Grids and dimensions have identifiers as names, and a step dimension comes first. -/
  shapes : ∀ g ∈ s.grids, GridShape g.name g.dims
  /-- A name of dimensions has one kind throughout. -/
  kinds : ∀ g ∈ s.grids, ∀ g' ∈ s.grids, ∀ d ∈ g.dims, ∀ d' ∈ g'.dims,
    d.name = d'.name → d.kind = d'.kind
  /-- There is one name of step dimensions at most. -/
  oneStep : ∀ g ∈ s.grids, ∀ g' ∈ s.grids, ∀ d ∈ g.dims, ∀ d' ∈ g'.dims,
    d.isStep = true → d'.isStep = true → d.name = d'.name
  /-- The table has the dimensions of the grids, each where it was first used. -/
  table : s.dims = s.listedDims.eraseDups
  /-- Every point of an equation belongs to a grid of the solution and has an offset a dimension. -/
  points : ∀ e ∈ s.equations, ∀ p ∈ e.points,
    s.grid? p.grid.name = some p.grid ∧ p.offsets.length = p.grid.dims.length
  /-- Every equation gives a grid with a step dimension its value at a later step. -/
  causal : ∀ e ∈ s.equations, (∃ d, e.lhs.grid.stepDim? = some d) ∧ Causal e.lhs e.rhs
  /-- Elements have four or eight bytes. -/
  width : s.width.bytes = 4 ∨ s.width.bytes = 8

/-- Where names are distinct, looking up a name finds the grid that has it. -/
theorem grid?_eq_some_iff (h : (s.grids.map Grid.name).Nodup) (name : String) (g : Grid) :
    s.grid? name = some g ↔ g ∈ s.grids ∧ g.name = name := by
  constructor
  · intro hg
    exact ⟨List.mem_of_find?_eq_some hg, by simpa using List.find?_some hg⟩
  · rintro ⟨hmem, rfl⟩
    cases hf : s.grid? g.name with
    | none =>
      have hne := List.find?_eq_none.mp hf g hmem
      exact absurd hne (by simp)
    | some g' =>
      have hmem' : g' ∈ s.grids := List.mem_of_find?_eq_some hf
      have hname : g'.name = g.name := by simpa using List.find?_some hf
      rw [List.inj_on_of_nodup_map h hmem' hmem hname]

theorem not_mem_names_of_grid?_eq_none {name : String} (h : s.grid? name = none) :
    name ∉ s.grids.map Grid.name := by
  intro hmem
  obtain ⟨g, hg, hname⟩ := List.mem_map.mp hmem
  have hne := List.find?_eq_none.mp h g hg
  exact hne (by simpa using hname)

theorem mem_listedDims {d : Dim} : d ∈ s.listedDims ↔ ∃ g ∈ s.grids, d ∈ g.dims :=
  List.mem_flatMap

/-- Where a name has one kind throughout, the dimensions of the grids are coherent. -/
theorem coherent_listedDims (hkinds : ∀ g ∈ s.grids, ∀ g' ∈ s.grids, ∀ d ∈ g.dims, ∀ d' ∈ g'.dims,
    d.name = d'.name → d.kind = d'.kind) : Coherent s.listedDims := by
  intro d hd d' hd' hname
  obtain ⟨g, hg, hd⟩ := mem_listedDims.mp hd
  obtain ⟨g', hg', hd'⟩ := mem_listedDims.mp hd'
  have hkind := hkinds g hg g' hg' d hd d' hd' hname
  cases d; cases d'
  simp only at hname hkind
  rw [hname, hkind]

theorem Valid.mem_dims (h : s.Valid) {d : Dim} : d ∈ s.dims ↔ ∃ g ∈ s.grids, d ∈ g.dims := by
  rw [h.table, List.mem_eraseDups, mem_listedDims]

/-! ## Dimensions that go with those in use -/

/-- **What the table is asked about a dimension**: it is there with the same kind, or it is new and
    does not add a second step dimension. -/
theorem conflict?_eq_none_iff (hcoh : Coherent s.dims) (grid : String) (d : Dim) :
    s.conflict? grid d = none ↔
      (∀ d' ∈ s.dims, d'.name = d.name → d'.kind = d.kind)
        ∧ (d.isStep = true → (∀ d' ∈ s.dims, d'.name ≠ d.name) →
            ∀ d' ∈ s.dims, d'.isStep = false) := by
  unfold conflict?
  -- a name in use is asked for its kind alone, a new one for being a second step dimension
  cases hdim : s.dim? d.name with
  | some existing =>
    have hmem : existing ∈ s.dims := List.mem_of_find?_eq_some hdim
    have hname : existing.name = d.name := by simpa using List.find?_some hdim
    constructor
    · intro h
      simp only at h
      split_ifs at h with hkind
      refine ⟨?_, fun _ hnew => absurd hname (hnew existing hmem)⟩
      intro d' hd' hname'
      rw [hcoh d' hd' existing hmem (hname'.trans hname.symm)]
      exact hkind
    · rintro ⟨hkinds, _⟩
      simp only [if_pos (hkinds existing hmem hname)]
  | none =>
    have hnew : ∀ d' ∈ s.dims, d'.name ≠ d.name := by
      intro d' hd'
      simpa using List.find?_eq_none.mp hdim d' hd'
    cases hstep : s.stepDim? with
    | some step =>
      have hmem : step ∈ s.dims := List.mem_of_find?_eq_some hstep
      have his : step.isStep = true := List.find?_some hstep
      constructor
      · intro h
        simp only at h
        split_ifs at h with hd
        exact ⟨fun d' hd' hname => absurd hname (hnew d' hd'), fun hds => absurd hds hd⟩
      · rintro ⟨_, hnone⟩
        have hd : ¬ d.isStep = true := by
          intro hd
          rw [hnone hd hnew step hmem] at his
          exact absurd his (by simp)
        simp only [if_neg hd]
    | none =>
      constructor
      · intro _
        refine ⟨fun d' hd' hname => absurd hname (hnew d' hd'), fun _ _ d' hd' => ?_⟩
        simpa using List.find?_eq_none.mp hstep d' hd'
      · intro _; rfl

/-- A dimension without conflict agrees with every grid of the solution. -/
theorem Valid.fits (h : s.Valid) {grid : String} {d : Dim} (hd : s.conflict? grid d = none)
    {g : Grid} (hg : g ∈ s.grids) {d' : Dim} (hd' : d' ∈ g.dims) :
    (d'.name = d.name → d'.kind = d.kind)
      ∧ (d.isStep = true → d'.isStep = true → d'.name = d.name) := by
  have hcoh : Coherent s.dims := by
    rw [h.table]
    exact (coherent_listedDims h.kinds).of_subset (fun _ => List.mem_eraseDups.mp)
  have hmem : d' ∈ s.dims := h.mem_dims.mpr ⟨g, hg, hd'⟩
  obtain ⟨hkinds, hsteps⟩ := (conflict?_eq_none_iff hcoh grid d).mp hd
  refine ⟨hkinds d' hmem, fun hstep hstep' => ?_⟩
  by_contra hne
  -- the name is either new, and then there is no step, or a step's, and then it is the only one
  by_cases hnew : ∀ d'' ∈ s.dims, d''.name ≠ d.name
  · rw [hsteps hstep hnew d' hmem] at hstep'
    exact absurd hstep' (by simp)
  · simp only [not_forall, not_not] at hnew
    obtain ⟨d'', hmem'', hname''⟩ := hnew
    obtain ⟨g'', hg'', hd''⟩ := h.mem_dims.mp hmem''
    have hstep'' : d''.isStep = true := by
      rw [Dim.isStep, hkinds d'' hmem'' hname'']
      exact hstep
    exact hne ((h.oneStep g hg g'' hg'' d' hd' d'' hd'' hstep' hstep'').trans hname'')

/-! ## Changes keep validity -/

theorem valid_new (name : String) : (Solution.new name).Valid where
  gridNames := List.nodup_nil
  lookup := fun _ _ => by simp [Solution.new, grid?]
  shapes := fun g _ => g.shape
  kinds := fun _ hg => absurd hg List.not_mem_nil
  oneStep := fun _ hg => absurd hg List.not_mem_nil
  table := rfl
  points := fun _ he => absurd he List.not_mem_nil
  causal := fun _ he => absurd he List.not_mem_nil
  width := Or.inl rfl

/-- A grid stays where it is found when another one is declared. -/
theorem grid?_withGrid {name : String} {g : Grid} (h : s.grid? name = some g) (g' : Grid) :
    (s.withGrid g').grid? name = some g := by
  show (s.grids ++ [g']).find? (·.name == name) = some g
  rw [List.find?_append, show s.grids.find? (·.name == name) = some g from h]
  rfl

/-- What holds of the dimensions of any two grids, in either order, is kept by one more grid if it
    holds of its own dimensions and of an older grid's with its. -/
theorem forall_dims_concat {gs : List Grid} {g : Grid} {R : Dim → Dim → Prop}
    (hsymm : ∀ d d', R d d' → R d' d)
    (hold : ∀ g₁ ∈ gs, ∀ g₂ ∈ gs, ∀ d₁ ∈ g₁.dims, ∀ d₂ ∈ g₂.dims, R d₁ d₂)
    (hmixed : ∀ g₁ ∈ gs, ∀ d₁ ∈ g₁.dims, ∀ d₂ ∈ g.dims, R d₁ d₂)
    (hnew : ∀ d₁ ∈ g.dims, ∀ d₂ ∈ g.dims, R d₁ d₂) :
    ∀ g₁ ∈ gs ++ [g], ∀ g₂ ∈ gs ++ [g], ∀ d₁ ∈ g₁.dims, ∀ d₂ ∈ g₂.dims, R d₁ d₂ := by
  intro g₁ hg₁ g₂ hg₂ d₁ hd₁ d₂ hd₂
  rcases List.mem_append.mp hg₁ with hg₁ | hg₁ <;> rcases List.mem_append.mp hg₂ with hg₂ | hg₂
  · exact hold g₁ hg₁ g₂ hg₂ d₁ hd₁ d₂ hd₂
  · rw [List.mem_singleton.mp hg₂] at hd₂
    exact hmixed g₁ hg₁ d₁ hd₁ d₂ hd₂
  · rw [List.mem_singleton.mp hg₁] at hd₁
    exact hsymm _ _ (hmixed g₂ hg₂ d₂ hd₂ d₁ hd₁)
  · rw [List.mem_singleton.mp hg₁] at hd₁
    rw [List.mem_singleton.mp hg₂] at hd₂
    exact hnew d₁ hd₁ d₂ hd₂

/-- **One more grid** keeps a solution valid, if its name is new and its dimensions go with those in
    use. -/
theorem Valid.withGrid (h : s.Valid) {g : Grid} (hname : s.grid? g.name = none)
    (hdims : ∀ d ∈ g.dims, s.conflict? g.name d = none) : (s.withGrid g).Valid := by
  have hnames : ((s.grids ++ [g]).map Grid.name).Nodup := by
    rw [List.map_append]
    refine List.Nodup.append h.gridNames (List.nodup_singleton _) ?_
    intro name hmem hg
    rw [List.mem_map] at hg
    obtain ⟨g', hg', rfl⟩ := hg
    rw [List.mem_singleton.mp hg'] at hmem
    exact not_mem_names_of_grid?_eq_none hname hmem
  have hkinds : ∀ g₁ ∈ s.grids ++ [g], ∀ g₂ ∈ s.grids ++ [g], ∀ d₁ ∈ g₁.dims, ∀ d₂ ∈ g₂.dims,
      d₁.name = d₂.name → d₁.kind = d₂.kind := by
    refine forall_dims_concat (fun _ _ hd he => (hd he.symm).symm) h.kinds ?_ ?_
    · intro g₁ hg₁ d₁ hd₁ d₂ hd₂
      exact (h.fits (hdims d₂ hd₂) hg₁ hd₁).1
    · -- within one grid a name occurs once
      intro d₁ hd₁ d₂ hd₂ he
      rw [List.inj_on_of_nodup_map g.shape.distinct hd₁ hd₂ he]
  have hsteps : ∀ g₁ ∈ s.grids ++ [g], ∀ g₂ ∈ s.grids ++ [g], ∀ d₁ ∈ g₁.dims, ∀ d₂ ∈ g₂.dims,
      d₁.isStep = true → d₂.isStep = true → d₁.name = d₂.name := by
    refine forall_dims_concat (fun _ _ hd h₂ h₁ => (hd h₁ h₂).symm) h.oneStep ?_ ?_
    · intro g₁ hg₁ d₁ hd₁ d₂ hd₂ hs₁ hs₂
      exact (h.fits (hdims d₂ hd₂) hg₁ hd₁).2 hs₂ hs₁
    · -- within one grid only the first dimension is a step
      intro d₁ hd₁ d₂ hd₂ hs₁ hs₂
      have h₁ := (g.stepDim?_eq_some_iff d₁).mpr ⟨hd₁, hs₁⟩
      have h₂ := (g.stepDim?_eq_some_iff d₂).mpr ⟨hd₂, hs₂⟩
      rw [Option.some.inj (h₁.symm.trans h₂)]
  have hlisted : (s.withGrid g).listedDims = s.listedDims ++ g.dims := by
    show (s.grids ++ [g]).flatMap Grid.dims = s.grids.flatMap Grid.dims ++ g.dims
    rw [List.flatMap_append, List.flatMap_singleton]
  have hcoh : Coherent (s.listedDims ++ g.dims) := hlisted ▸ coherent_listedDims hkinds
  refine ⟨hnames, grid?_eq_some_iff hnames, fun g' _ => g'.shape, hkinds, hsteps, ?_, ?_, h.causal,
    h.width⟩
  -- the table is extended dimension by dimension, the list of all dimensions at once
  · show g.dims.foldl insertDim s.dims = (s.withGrid g).listedDims.eraseDups
    rw [h.table, foldl_insertDim g.dims s.listedDims hcoh, hlisted]
  · intro e he p hp
    obtain ⟨hgrid, hlen⟩ := h.points e he p hp
    exact ⟨grid?_withGrid hgrid g, hlen⟩

/-- **One more equation** keeps a solution valid, if all its points are of the solution's own
    grids. -/
theorem Valid.withEquation (h : s.Valid) {e : Equation} (howns : ∀ p ∈ e.points, s.owns p = true) :
    Valid { s with equations := s.equations ++ [e] } := by
  refine ⟨h.gridNames, h.lookup, h.shapes, h.kinds, h.oneStep, h.table, ?_, ?_, h.width⟩
  · intro e' he' p hp
    rcases List.mem_append.mp he' with he' | he'
    · exact h.points e' he' p hp
    · rw [List.mem_singleton.mp he'] at hp
      have hgrid : s.grid? p.grid.name = some p.grid := by simpa [owns] using howns p hp
      exact ⟨hgrid, p.sound⟩
  · intro e' _
    obtain ⟨l, hl, hlater⟩ := e'.causal
    obtain ⟨d, hd, hstep⟩ := e'.lhs.stepOffset?_isSome_iff.mp ⟨l, hl⟩
    exact ⟨⟨d, (Grid.stepDim?_eq_some_iff _ d).mpr ⟨hd, hstep⟩⟩, l, hl, hlater⟩

theorem width_eq_of_bytes {w w' : Width} (h : (w.bytes : Int) = w'.bytes) : w = w' := by
  cases w <;> cases w' <;> simp_all [Width.bytes]

theorem Valid.withWidth (h : s.Valid) (w : Width) : Valid { s with width := w } := by
  refine ⟨h.gridNames, h.lookup, h.shapes, h.kinds, h.oneStep, h.table, h.points, h.causal, ?_⟩
  cases w with
  | single => exact Or.inl rfl
  | double => exact Or.inr rfl

/-- **Every change keeps a solution valid**, whichever of the four it is. -/
theorem Valid.change {s' : Solution} (h : s.Valid) (hs : s.Change s') : s'.Valid := by
  cases hs with
  | nothing => exact h
  | grid g hname hdims => exact h.withGrid hname hdims
  | equation e howns => exact h.withEquation howns
  | width w => exact h.withWidth w

theorem Change.name {s' : Solution} (hs : s.Change s') : s'.name = s.name := by
  cases hs with
  | nothing => rfl
  | grid g hname hdims => rfl
  | equation e howns => rfl
  | width w => rfl

/-! ## The table -/

theorem Valid.stepDim?_eq (h : s.Valid) : s.stepDim? = s.listedDims.find? Dim.isStep := by
  rw [stepDim?, h.table, find?_eraseDups]

theorem Valid.domainDims_eq (h : s.Valid) :
    s.domainDims = (s.listedDims.filter (!·.isStep)).eraseDups := by
  rw [domainDims, h.table, filter_eraseDups]

/-! ## The step dimension before the domain dimensions -/

/-- The dimensions in the order in which they are written. -/
def writtenDims (s : Solution) : List Dim := s.stepDim?.toList ++ s.domainDims

theorem Valid.coherent_dims (h : s.Valid) : Coherent s.dims := by
  refine (coherent_listedDims h.kinds).of_subset ?_
  rw [h.table]
  exact fun d hd => List.mem_eraseDups.mp hd

/-- The step dimension and the domain dimensions are all dimensions. -/
theorem Valid.mem_writtenDims (h : s.Valid) {d : Dim} : d ∈ s.writtenDims ↔ d ∈ s.dims := by
  rw [writtenDims, List.mem_append, Option.mem_toList, domainDims, List.mem_filter]
  constructor
  · rintro (hd | hd)
    · exact List.mem_of_find?_eq_some hd
    · exact hd.1
  · intro hd
    cases hstep : d.isStep with
    | false => exact Or.inr ⟨hd, rfl⟩
    | true =>
      -- the step dimension that is found has the name of this one
      refine Or.inl ?_
      cases hfind : s.stepDim? with
      | none => exact absurd hstep (List.find?_eq_none.mp hfind d hd)
      | some d' =>
        have hd' : d' ∈ s.dims := List.mem_of_find?_eq_some hfind
        have hstep' : d'.isStep = true := List.find?_some hfind
        obtain ⟨g, hg, hdg⟩ := h.mem_dims.mp hd
        obtain ⟨g', hg', hdg'⟩ := h.mem_dims.mp hd'
        have hname := h.oneStep g hg g' hg' d hdg d' hdg' hstep hstep'
        rw [h.coherent_dims d hd d' hd' hname]

/-- The dimensions of a grid are written. -/
theorem Valid.dims_subset (h : s.Valid) {g : Grid} (hg : g ∈ s.grids) : g.dims ⊆ s.writtenDims := by
  intro d hd
  rw [h.mem_writtenDims, h.mem_dims]
  exact ⟨g, hg, hd⟩

/-- No two dimensions have one name, so that they can be the parameters of a function. -/
theorem Valid.nodup_writtenDims (h : s.Valid) : (s.writtenDims.map Dim.name).Nodup := by
  have hdims : s.dims.Nodup := by rw [h.table]; exact nodup_eraseDups _
  have hnodup : s.writtenDims.Nodup := by
    refine List.Nodup.append ?_ (hdims.filter _) ?_
    · cases s.stepDim? <;> simp
    · intro d hd hd'
      have hstep : d.isStep = true := List.find?_some (Option.mem_toList.mp hd)
      have hdomain := (List.mem_filter.mp hd').2
      rw [hstep] at hdomain
      exact absurd hdomain (by decide)
  refine hnodup.map_on fun d hd d' hd' hname => ?_
  exact h.coherent_dims d (h.mem_writtenDims.mp hd) d' (h.mem_writtenDims.mp hd') hname

end Solution

namespace Draft

/-- **After every session the solution is valid**, starting from a new one. -/
theorem valid_after (name : String) (log : Option Sink) (calls : List Call) :
    ((Draft.new name log).after calls).solution.Valid :=
  after_induct (P := fun d => d.solution.Valid) (fun d c h => h.change (d.perform_change c)) calls
    (Solution.valid_new name)

theorem name_after (d : Draft) (calls : List Call) :
    (d.after calls).solution.name = d.solution.name :=
  after_induct (P := fun d' => d'.solution.name = d.solution.name)
    (fun d' c h => (d'.perform_change c).name.trans h) calls rfl

/-- **Every session leaves a valid solution**, whatever the calls and whether or not they are
    accepted. It keeps its name, and its step dimension and its domain dimensions are functions of
    the list of its grids. -/
theorem after_valid (name : String) (log : Option Sink) (calls : List Call) :
    let s := ((Draft.new name log).after calls).solution
    s.Valid ∧ s.name = name
      ∧ s.stepDim? = s.listedDims.find? Dim.isStep
      ∧ s.domainDims = (s.listedDims.filter (!·.isStep)).eraseDups := by
  have h := valid_after name log calls
  exact ⟨h, name_after _ calls, h.stepDim?_eq, h.domainDims_eq⟩

end Draft

end Stencil
