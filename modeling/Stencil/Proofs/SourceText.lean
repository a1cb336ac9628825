import Mathlib
import Stencil.Proofs.Acceptance
import Stencil.Proofs.Sentences

/-!
# Every solution has a source text

A solution is written as sentences: its name, the width of its elements, its dimensions, its grids
and its equations (`Solution.sentences`). A program that says these sentences is well formed,
because each sentence comes after all that it refers to (`sentences_follow`), and it describes the
solution. No other solution is described by it (`Describes.unique`), so the front end gives back the
solution itself (`compileSource_source`).

It is the solution itself, tables included: the table of dimensions is in the order of their first use,
and the grids are declared in their order.

Not every solution can be written. Names may be reserved words, constants may be infinite or NaN, and
offsets may be too large for a number of the source language to be worth exactly that. What can be
written is said of the solution, condition by condition (`Solution.Writable`).
-/

namespace Stencil.Solution

open Source

variable {s : Solution}

/-- The sentence of the domain dimensions, if there are any. -/
def domainSentence : List String → List Sentence
  | [] => []
  | first :: others => [.domain first others]

/-- The sentences before the grids. -/
def opening (s : Solution) : List Sentence :=
  [.solution s.name, .width s.width]
    ++ s.stepDim?.toList.map (fun d => .step d.name)
    ++ domainSentence (s.domainDims.map Dim.name)

/-- All sentences of a solution. -/
def sentences (s : Solution) : List Sentence :=
  s.opening ++ (s.grids.map .grid ++ s.equations.map .equation)

/-- **The source text of a solution**, with a gap after each statement. -/
def source (s : Solution) (gap : String) : String := sentencesText gap s.sentences

/-- The names, the constants and the offsets of the solution can stand in a source text. -/
structure Writable (s : Solution) : Prop where
  name : Nameable s.name
  grids : ∀ g ∈ s.grids, Nameable g.name
  dims : ∀ d ∈ s.dims, Nameable d.name
  constants : ∀ e ∈ s.equations, ∀ v ∈ e.rhs.constants, v.isFinite = true
  offsets : ∀ e ∈ s.equations, ∀ q ∈ e.points, ∀ o ∈ q.offsets, Representable o

/-! ### Dimensions -/

theorem oneStep_writtenDims (s : Solution) : (s.writtenDims.filter Dim.isStep).length ≤ 1 := by
  have hdomain : s.domainDims.filter Dim.isStep = [] := by
    rw [domainDims, List.filter_filter, List.filter_eq_nil_iff]
    simp
  have hstep : s.stepDim?.toList.length ≤ 1 := by cases s.stepDim? <;> simp
  rw [writtenDims, List.filter_append, hdomain, List.append_nil]
  exact (List.length_filter_le _ _).trans hstep

/-! ### What the sentences declare -/

/-- The sentences that open a solution. -/
theorem mem_opening {x : Sentence} (hx : x ∈ s.opening) : x = .solution s.name ∨ x = .width s.width
    ∨ (∃ d, s.stepDim? = some d ∧ x = .step d.name)
    ∨ ∃ first others, s.domainDims.map Dim.name = first :: others ∧ x = .domain first others := by
  rcases List.mem_append.mp hx with hx | hx
  · rcases List.mem_append.mp hx with hx | hx
    · have hpair : x = .solution s.name ∨ x = .width s.width := by simpa using hx
      tauto
    · obtain ⟨d, hd, rfl⟩ := List.mem_map.mp hx
      exact Or.inr (Or.inr (Or.inl ⟨d, Option.mem_toList.mp hd, rfl⟩))
  · cases hnames : s.domainDims.map Dim.name with
    | nil =>
      rw [hnames] at hx
      exact absurd hx List.not_mem_nil
    | cons first others =>
      rw [hnames] at hx
      exact Or.inr (Or.inr (Or.inr ⟨first, others, rfl, List.mem_singleton.mp hx⟩))

theorem dims_domainSentence (names : List String) :
    (domainSentence names).flatMap Sentence.dims = names.map fun name => ⟨name, .domain⟩ := by
  cases names with
  | nil => rfl
  | cons first others => simp [domainSentence, Sentence.dims]

theorem dims_opening (s : Solution) : s.opening.flatMap Sentence.dims = s.writtenDims := by
  have hstep : (s.stepDim?.toList.map fun d => Sentence.step d.name).flatMap Sentence.dims
      = s.stepDim?.toList := by
    cases hfind : s.stepDim? with
    | none => rfl
    | some d =>
      have hkind : d.isStep = true := List.find?_some hfind
      obtain ⟨name, kind⟩ := d
      obtain rfl : kind = .step := by simpa [Dim.isStep] using hkind
      rfl
  -- the kinds are not written, but the two statements give them back
  have hdomain : (s.domainDims.map Dim.name).map (fun name => (⟨name, .domain⟩ : Dim))
      = s.domainDims := by
    rw [List.map_map]
    conv_rhs => rw [← List.map_id s.domainDims]
    refine List.map_congr_left fun d hd => ?_
    have hkind := (List.mem_filter.mp hd).2
    obtain ⟨name, kind⟩ := d
    cases kind with
    | step => exact absurd hkind (by simp [Dim.isStep])
    | domain => rfl
  unfold opening
  rw [List.flatMap_append, List.flatMap_append, hstep, dims_domainSentence, hdomain]
  rfl

theorem opening_declares (s : Solution) : s.opening.flatMap Sentence.names = [s.name]
    ∧ s.opening.flatMap Sentence.widths = [s.width] ∧ s.opening.flatMap Sentence.grids = []
    ∧ s.opening.flatMap Sentence.equations = [] := by
  unfold opening
  cases s.stepDim? <;> cases s.domainDims.map Dim.name <;> exact ⟨rfl, rfl, rfl, rfl⟩

theorem names_sentences (s : Solution) : s.sentences.flatMap Sentence.names = [s.name] := by
  simp [sentences, s.opening_declares.1, List.flatMap_map, Sentence.names]

theorem dims_sentences (s : Solution) : s.sentences.flatMap Sentence.dims = s.writtenDims := by
  simp [sentences, s.dims_opening, List.flatMap_map, Sentence.dims]

theorem widths_sentences (s : Solution) : s.sentences.flatMap Sentence.widths = [s.width] := by
  simp [sentences, s.opening_declares.2.1, List.flatMap_map, Sentence.widths]

theorem grids_sentences (s : Solution) : s.sentences.flatMap Sentence.grids = s.grids := by
  simp [sentences, s.opening_declares.2.2.1, List.flatMap_map, Sentence.grids]

theorem equations_sentences (s : Solution) :
    s.sentences.flatMap Sentence.equations = s.equations := by
  simp [sentences, s.opening_declares.2.2.2, List.flatMap_map, Sentence.equations]

/-! ### The order of the sentences -/

/-- The sentence comes after all that it refers to. -/
def Follows (s : Solution) (before : List Sentence) : Sentence → Prop
  | .grid g => g ∈ s.grids ∧ before.flatMap Sentence.dims = s.writtenDims
      ∧ g.name ∉ (before.flatMap Sentence.grids).map Grid.name
  | .equation e => e ∈ s.equations ∧ before.flatMap Sentence.dims = s.writtenDims
      ∧ before.flatMap Sentence.grids = s.grids
  | _ => True

/-- What holds of every element of two lists and the elements before it. -/
theorem forall_split_append {α : Type} {P : List α → α → Prop} {xs ys : List α}
    (hxs : ∀ before x after, xs = before ++ x :: after → P before x)
    (hys : ∀ before y after, ys = before ++ y :: after → P (xs ++ before) y) :
    ∀ before z after, xs ++ ys = before ++ z :: after → P before z := by
  intro before z after heq
  rcases List.append_eq_append_iff.mp heq with ⟨as, rfl, hys'⟩ | ⟨cs, hxs', hcs⟩
  · exact hys as z after hys'
  · cases cs with
    | nil =>
      rw [List.append_nil] at hxs'
      rw [← hxs', ← List.append_nil xs]
      exact hys [] z after hcs.symm
    | cons c cs =>
      obtain ⟨rfl, _⟩ := List.cons.inj hcs
      exact hxs before z cs hxs'

/-- **Each sentence comes after all that it refers to.** -/
theorem Valid.sentences_follow (h : s.Valid) : ∀ before x after,
    s.sentences = before ++ x :: after → s.Follows before x := by
  refine forall_split_append ?_ (forall_split_append ?_ ?_)
  · -- the sentences that open the solution refer to nothing
    intro before x after heq
    have hx : x ∈ s.opening := by simp [heq]
    rcases mem_opening hx with rfl | rfl | ⟨_, _, rfl⟩ | ⟨_, _, _, rfl⟩ <;> trivial
  · -- a grid comes after the dimensions and after grids of other names
    intro before x after heq
    obtain ⟨gs, gs', hgrids, rfl, htail⟩ := List.map_eq_append_iff.mp heq
    obtain ⟨g, gs'', rfl, rfl, _⟩ := List.map_eq_cons_iff.mp htail
    have hbefore : (s.opening ++ gs.map Sentence.grid).flatMap Sentence.grids = gs := by
      simp [s.opening_declares.2.2.1, List.flatMap_map, Sentence.grids]
    have hnames := h.gridNames
    rw [hgrids, List.map_append, List.map_cons] at hnames
    refine ⟨by simp [hgrids], ?_, ?_⟩
    · simp [s.dims_opening, List.flatMap_map, Sentence.dims]
    · rw [hbefore]
      exact fun hmem => (List.nodup_append.mp hnames).2.2 _ hmem _ List.mem_cons_self rfl
  · -- an equation comes after the dimensions and all grids
    intro before x after heq
    obtain ⟨es, es', hequations, rfl, htail⟩ := List.map_eq_append_iff.mp heq
    obtain ⟨e, es'', rfl, rfl, _⟩ := List.map_eq_cons_iff.mp htail
    refine ⟨by simp [hequations], ?_, ?_⟩
    · simp [s.dims_opening, List.flatMap_map, Sentence.dims]
    · simp [s.opening_declares.2.2.1, List.flatMap_map, Sentence.grids]

/-! ### The program of the sentences -/

variable {D : Declared}

/-- Grid statements over the written dimensions stand for the grids that they name. -/
theorem Valid.gridMeans (h : s.Valid) (hdims : D.dims = s.writtenDims)
    (hnames : List.Forall₂ GridDecl.Names D.grids s.grids) :
    List.Forall₂ (GridDecl.Means D.dims) D.grids s.grids := by
  have hmem := (List.forall₂_and_left _ _).mpr ⟨fun g (hg : g ∈ s.grids) => hg, hnames.flip⟩
  rw [hdims]
  exact hmem.flip.imp fun g grid hgrid => ⟨hgrid.2.1, hgrid.2.2, h.dims_subset hgrid.1⟩

/-- A grid statement fits the sentences before it. -/
theorem Valid.grid_fits (h : s.Valid) {before : List Sentence} (hD : D.Agrees s.grids before)
    {grid : Grid} (hfollows : s.Follows before (.grid grid)) {g : GridDecl} (hg : g.Names grid) :
    g.Fits D := by
  obtain ⟨hmem, hdims, hfresh⟩ := hfollows
  have hdeclared : D.dims = s.writtenDims := hD.dims.trans hdims
  have hsub : grid.dims ⊆ D.dims := by
    rw [hdeclared]
    exact h.dims_subset hmem
  have hdistinct : (D.dims.map Dim.name).Nodup := by
    rw [hdeclared]
    exact h.nodup_writtenDims
  have hshape := h.shapes grid hmem
  have hlisted : grid.dims.map Dim.name = g.dims := hg.2
  obtain ⟨hnonempty, hnodup, hfirst⟩ :=
    (gridShape_iff hdistinct hshape.name hshape.dimNames hsub).mp hshape
  rw [hlisted] at hnonempty hnodup hfirst
  refine ⟨fun name hname => ?_, hnonempty, hnodup, hfirst, fun g' hg' heq => hfresh ?_⟩
  · rw [← hlisted] at hname
    obtain ⟨d, hd, rfl⟩ := List.mem_map.mp hname
    exact ⟨d, hsub hd, rfl⟩
  · obtain ⟨grid', hgrid', hnames⟩ := forall₂_left hD.grids hg'
    refine List.mem_map.mpr ⟨grid', hgrid', ?_⟩
    rw [hnames.1, heq, hg.1]

/-- An equation statement fits the sentences before it. -/
theorem Valid.equation_fits (h : s.Valid) {before : List Sentence} (hD : D.Agrees s.grids before)
    {equation : Equation} (hfollows : s.Follows before (.equation equation)) {e : EquationDecl}
    (he : e.Means s.grids equation) : e.Fits D := by
  obtain ⟨hmem, hdims, hgrids⟩ := hfollows
  have hdeclared : D.dims = s.writtenDims := hD.dims.trans hdims
  have hdistinct : (D.dims.map Dim.name).Nodup := by
    rw [hdeclared]
    exact h.nodup_writtenDims
  have hnames : List.Forall₂ GridDecl.Names D.grids s.grids := hgrids ▸ hD.grids
  refine (equationFits_iff hdistinct (h.gridMeans hdeclared hnames) e).mpr ?_
  exact ⟨equation.lhs, equation.rhs, he.1, he.2, (h.causal equation hmem).2⟩

variable {p : Program}

/-- **A program that says the sentences of a solution is well formed.** -/
theorem Valid.wellFormed_of_say (h : s.Valid) (hsay : Say s.grids p.statements s.sentences) :
    p.WellFormed := by
  have hdims : (Declared.ofStatements p.statements).dims = s.writtenDims :=
    hsay.agrees.dims.trans s.dims_sentences
  -- what a statement says comes after what the statements before it say
  have hfollows : ∀ before stmt after, p.statements = before ++ stmt :: after →
      ∃ xs x, (Declared.ofStatements before).Agrees s.grids xs ∧ s.Follows xs x
        ∧ x.SaidBy s.grids stmt.clause := by
    intro before stmt after heq
    have hsplit := hsay
    rw [heq] at hsplit
    obtain ⟨xs, x, xs', hxs, hbefore, hx⟩ := hsplit.split
    exact ⟨xs, x, hbefore.agrees, h.sentences_follow xs x xs' hxs, hx⟩
  refine ⟨?_, fun stmt hstmt => ?_, ?_, ?_, fun before stmt after heq g hg => ?_,
    fun before stmt after heq e he => ?_⟩
  · have hnames := congrArg List.length (hsay.names.trans s.names_sentences)
    simpa using hnames
  · obtain ⟨x, _, hx⟩ := forall₂_left hsay hstmt
    intro name value span hclause
    rw [hclause] at hx
    obtain _ | @⟨_, _, w, _, hname, hvalue⟩ := hx
    refine ⟨hname, ?_⟩
    cases w with
    | single => exact Or.inl hvalue
    | double => exact Or.inr hvalue
  · rw [hdims]
    exact h.nodup_writtenDims
  · rw [hdims]
    exact s.oneStep_writtenDims
  · obtain ⟨xs, x, hD, hx, hsaid⟩ := hfollows before stmt after heq
    generalize stmt.clause = c at hg hsaid
    cases hsaid with
    | grid hname hlisted =>
      obtain rfl := List.mem_singleton.mp hg
      exact h.grid_fits hD hx ⟨hname, hlisted⟩
    | solution | width | step | domain | equation => exact absurd hg List.not_mem_nil
  · obtain ⟨xs, x, hD, hx, hsaid⟩ := hfollows before stmt after heq
    generalize stmt.clause = c at he hsaid
    cases hsaid with
    | equation hlhs hrhs =>
      obtain rfl := List.mem_singleton.mp he
      exact h.equation_fits hD hx ⟨hlhs, hrhs⟩
    | solution | width | step | domain | grid => exact absurd he List.not_mem_nil

/-- **A program that says the sentences of a solution describes it.** -/
theorem Valid.describes_of_say (h : s.Valid) (hsay : Say s.grids p.statements s.sentences) :
    p.Describes s := by
  have hall := hsay.agrees
  have hwidths := s.widths_sentences ▸ hall.widths
  have hnames := s.grids_sentences ▸ hall.grids
  refine ⟨hsay.names.trans s.names_sentences, ?_,
    h.gridMeans (hall.dims.trans s.dims_sentences) hnames, s.equations_sentences ▸ hall.equations⟩
  unfold WidthMeans
  generalize (Declared.ofStatements p.statements).widths = vs at hwidths
  obtain _ | ⟨hv, hnil⟩ := hwidths
  cases hnil
  exact hv

end Stencil.Solution

namespace Stencil.Source.Program

open Solution

variable {p : Program} {s s' : Solution}

/-- A grid statement stands for one grid, where names of dimensions are distinct. -/
theorem gridMeans_unique {declared : List Dim} (h : (declared.map Dim.name).Nodup) :
    Relator.RightUnique (GridDecl.Means declared) := by
  intro g a b ha hb
  have hname : a.name = b.name := ha.name.trans hb.name.symm
  have hdims : a.dims = b.dims :=
    eq_of_names h _ _ ha.declared hb.declared (ha.dims.trans hb.dims.symm)
  cases a
  cases b
  simp_all

/-- **A program describes one solution**, if its dimensions have distinct names. -/
theorem Describes.unique (h : p.Describes s) (h' : p.Describes s') (hs : s.Valid) (hs' : s'.Valid)
    (hdistinct : ((Declared.ofStatements p.statements).dims.map Dim.name).Nodup) : s = s' := by
  have hname : s.name = s'.name := (List.cons.inj (h.name.symm.trans h'.name)).1
  have hgrids : s.grids = s'.grids :=
    List.right_unique_forall₂' (gridMeans_unique hdistinct) h.declared.grids h'.declared.grids
  have hequations : s.equations = s'.equations := by
    -- over the same grids, a side stands for what it is elaborated to
    have heq' := h'.declared.equations
    rw [← hgrids] at heq'
    refine List.right_unique_forall₂' ?_ h.declared.equations heq'
    rintro e ⟨l, r, _⟩ ⟨l', r', _⟩ ha hb
    obtain rfl : l = l' := (elaboratePoint_decides hs e.lhs).unique ha.1 hb.1
    obtain rfl : r = r' := (elaborateExpr_decides hs e.rhs).unique ha.2 hb.2
    rfl
  have hwidth : s.width = s'.width := by
    have hw := h.declared.width
    have hw' := h'.declared.width
    unfold WidthMeans at hw hw'
    refine width_eq_of_bytes ?_
    cases hlast : (Declared.ofStatements p.statements).widths.getLast? with
    | none => simp_all
    | some v =>
      rw [hlast] at hw hw'
      exact hw.unique hw'
  have hdims : s.dims = s'.dims := by
    rw [hs.table, hs'.table, listedDims, listedDims, hgrids]
  cases s
  cases s'
  simp_all

end Stencil.Source.Program

namespace Stencil

open Source

/-! ## The way back -/

namespace Solution

variable {s : Solution}

/-- The sentences of a solution can be written if its names, constants and offsets can. -/
theorem Valid.writable_sentences (h : s.Valid) (hs : s.Writable) :
    ∀ x ∈ s.sentences, x.Writable s.grids := by
  have hgrid : ∀ g ∈ s.grids, GridNameable g := fun g hg =>
    ⟨hs.grids g hg, fun d hd => hs.dims d (h.mem_dims.mpr ⟨g, hg, hd⟩)⟩
  have hpoint : ∀ e ∈ s.equations, ∀ q ∈ e.points, PointWritable s.grids q := by
    intro e he q hq
    have hmem := ((h.lookup _ _).mp (h.points e he q hq).1).1
    exact ⟨hmem, hgrid _ hmem, hs.offsets e he q hq⟩
  have hopening : ∀ x ∈ s.opening, x.Writable s.grids := by
    intro x hx
    rcases mem_opening hx with rfl | rfl | ⟨d, hd, rfl⟩ | ⟨first, others, hnames, rfl⟩
    · exact hs.name
    · trivial
    · exact hs.dims d (List.mem_of_find?_eq_some hd)
    · show ∀ name ∈ first :: others, Nameable name
      rw [← hnames]
      exact List.forall_mem_map.mpr fun d hd => hs.dims d (List.mem_filter.mp hd).1
  intro x hx
  rcases List.mem_append.mp hx with hx | hx
  · exact hopening x hx
  rcases List.mem_append.mp hx with hx | hx
  · obtain ⟨g, hg, rfl⟩ := List.mem_map.mp hx
    exact hgrid g hg
  · obtain ⟨e, he, rfl⟩ := List.mem_map.mp hx
    obtain ⟨hlhs, hrhs⟩ := List.forall_mem_cons.mp (hpoint e he)
    exact ⟨hlhs, hrhs, hs.constants e he⟩

/-- **The front end gives back the solution whose text it reads.** -/
theorem Valid.compileSource_source (h : s.Valid) (hs : s.Writable) {gap : String}
    (hgap : ∀ c ∈ gap.toList, isBlank c = true) (log : Option Sink) :
    ∃ d, compileSource (s.source gap) none log = ⟨some d, [], d.log⟩ ∧ d.solution = s := by
  obtain ⟨derivation, hparse, hsay⟩ :=
    (written_sentences hgap s.sentences (h.writable_sentences hs)).parseText
  have hparse : parseText (s.source gap) = _ := hparse
  generalize hp : derivation.tree _ = p at hparse
  have hsay : Say s.grids p.statements s.sentences := hp ▸ hsay
  have hspelled : p.Spelled := Program.spelled_of_parseText (by rw [hparse])
  -- the program is accepted, and what it is elaborated to is what it describes: the solution
  have hwellFormed := h.wellFormed_of_say hsay
  have hfindings := (p.elaborate_findings_eq_nil_iff log hspelled).mpr hwellFormed
  obtain ⟨hvalid, hdescribes⟩ := Program.elaborate_describes hwellFormed log hspelled
  have hdraft := (Program.draft?_eq_some_iff (p.elaborate log) _).mpr ⟨hfindings, rfl⟩
  refine ⟨(p.elaborate log).draft, ?_,
    hdescribes.unique (h.describes_of_say hsay) hvalid h hwellFormed.distinct⟩
  unfold compileSource Scope.outcome
  simp only [hparse, hdraft, hfindings]
  rfl

end Solution

/-- **Every solution can be written as a source text and comes back unchanged.** Whatever calls built
    it, if its names are identifiers and no reserved words, its constants are finite and its offsets
    are numbers of the source language, then the front end finds nothing wrong with its text and gives
    back the same name, width, dimensions, grids and equations, with the same constants and offsets. -/
theorem Draft.source_gives_back (name : String) (log log' : Option Sink) (calls : List Call) :
    let s := ((Draft.new name log).after calls).solution
    s.Writable → ∀ gap : String, (∀ c ∈ gap.toList, isBlank c = true) →
      let outcome := compileSource (s.source gap) none log'
      outcome.solution? = some s ∧ outcome.diagnostics = [] := by
  intro s hs gap hgap outcome
  obtain ⟨d, hcompile, hsolution⟩ :=
    (Draft.valid_after name log calls).compileSource_source hs hgap log'
  have houtcome : outcome = ⟨some d, [], d.log⟩ := hcompile
  rw [houtcome]
  exact ⟨congrArg some hsolution, rfl⟩

/-- `p(n+1, j) EQUALS ((-1 * p(n, j-1)) - (k(j+2) / -0))`: a product that is no negative, and a
    negative zero. -/
def Equation.negative : Equation :=
  let p : Grid := ⟨"p", [⟨"n", .step⟩, ⟨"j", .domain⟩], by decide⟩
  let k : Grid := ⟨"k", [⟨"j", .domain⟩], by decide⟩
  let product : Expr := .binary .mul (.const (.ofInt (-1))) (.point ⟨p, [0, -1], by decide⟩)
  let quotient : Expr := .binary .div (.point ⟨k, [2], by decide⟩) (.const Double.zero.neg)
  ⟨⟨p, [1, 0], by decide⟩, .binary .sub product quotient, by decide⟩

/-- A session that declares the two grids and adds the equation. -/
def Call.negative : List Call :=
  [.declareGrid "p" [⟨"n", .step⟩, ⟨"j", .domain⟩], .declareGrid "k" [⟨"j", .domain⟩],
    .addEquation .negative, .setElementBytes 8]

theorem Draft.source_gives_back_negative :
    let s := ((Draft.new "decay" none).after Call.negative).solution
    s.source " " = "solution decay; set element_bytes = 8; step n; domain j; grid p(n, j); "
        ++ "grid k(j); p(n+1, j) = ((-1 * p(n, j-1)) - (k(j+2) / -0)); "
      ∧ s.Writable ∧ (compileSource (s.source " ") none none).solution? = some s
      ∧ (compileSource (s.source " ") none none).diagnostics = [] := by
  have htext : ((Draft.new "decay" none).after Call.negative).solution.source " "
      = "solution decay; set element_bytes = 8; step n; domain j; grid p(n, j); "
        ++ "grid k(j); p(n+1, j) = ((-1 * p(n, j-1)) - (k(j+2) / -0)); " := by
    decide +kernel
  have hoffsets : ∀ e ∈ ((Draft.new "decay" none).after Call.negative).solution.equations,
      ∀ q ∈ e.points, q.offsets.all (fun o => decide (Representable o)) = true := by
    decide +kernel
  have hwritable : ((Draft.new "decay" none).after Call.negative).solution.Writable :=
    ⟨by decide +kernel, by decide +kernel, by decide +kernel, by decide +kernel,
      fun e he q hq o ho => of_decide_eq_true (List.all_eq_true.mp (hoffsets e he q hq) o ho)⟩
  have hgap : ∀ c ∈ " ".toList, isBlank c = true := List.all_eq_true.mp rfl
  exact ⟨htext, hwritable, source_gives_back "decay" none none Call.negative hwritable " " hgap⟩

end Stencil
