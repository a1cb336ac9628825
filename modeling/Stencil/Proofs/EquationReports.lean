import Mathlib
import Stencil.Proofs.AcceptedCalls
import Stencil.Proofs.Nesting

/-!
# Every bad reference in an equation is reported

`Point.reports` says what is reported of one point: that its grid is unknown, or else that it has
too many or too few indices, or else what is wrong with each index in turn. The reports of an
equation are those of its points, the written one first and then the others from left to right, at
whatever depth they stand (`equation_reports`). This is no search that stops: a part that cannot be
used is carried along with what was found in it, and two parts together have the reports of both
(`Checked.Reports`).

Only an equation without any of these can be refused for its steps, and only one without any report
is added to the solution.
-/

namespace Stencil.Source

/-! ## What is reported of a point -/

/-- The offset is an integer of 64 bits. -/
def Index.Usable (i : Index) : Prop := ∃ n : Int, i.offset.IsInt n ∧ -2 ^ 63 ≤ n ∧ n < 2 ^ 63

instance (i : Index) : Decidable i.Usable :=
  decidable_of_iff (i.offset.toInt64?.isSome = true) (Double.toInt64?_isSome_iff _)

/-- The reports of the index that stands for a dimension of a grid: its name, then its offset. -/
def Index.reports (g : Grid) (position : Nat) (d : Dim) (i : Index) : List Diagnostic :=
  (if i.dim.name = d.name then [] else
    [⟨.error, some "E0131", i.dim.span,
      s!"index {position} of '{g.name}' must be '{d.name}', found '{i.dim.name}'",
      some s!"indices follow the declaration {g.text}", []⟩])
  ++ if i.Usable then [] else
    [⟨.error, some "E0133", i.span, s!"offset {i.offset.text} is not a 64-bit integer", none, []⟩]

/-- **The reports of a point**, in a solution with the given grids. -/
def Point.reports (s : Solution) (p : Point) : List Diagnostic :=
  match s.grid? p.grid.name with
  | none =>
    [⟨.error, some "E0130", p.grid.span, s!"unknown grid '{p.grid.name}'",
      some s!"declare it with `grid {p.grid.name}(...);`", []⟩]
  | some g =>
    if p.indices.length = g.dims.length then
      (p.indices.zip g.dims).zipIdx.flatMap fun ((i, d), position) => i.reports g position d
    else
      [⟨.error, some "E0132", p.span,
        s!"grid '{g.name}' takes {g.dims.length} index(es), got {p.indices.length}",
        some s!"write it as {g.text}", []⟩]

/-- The point has the given offset along a step dimension of its grid. -/
def Point.StepsTo (s : Solution) (p : Point) (n : Int) : Prop :=
  ∃ g, s.grid? p.grid.name = some g
    ∧ ∃ i d, (i, d) ∈ p.indices.zip g.dims ∧ d.isStep = true ∧ i.offset.IsInt n

/-- The written point has a step, and it is later than the steps of all points that are read. -/
def ReadsEarlier (s : Solution) (lhs : Point) (rhs : Expr) : Prop :=
  ∃ l, lhs.StepsTo s l ∧ ∀ p ∈ rhs.points, ∀ r, p.StepsTo s r → r < l

/-! ## Parts with their reports -/

/-- What was found in a part is reported as `ds`, and the part can be used if that is nothing. -/
structure Checked.Reports {α : Type} (c : Checked α) (ds : List Diagnostic) : Prop where
  findings : c.findings.map Finding.diagnostic = ds
  value : c.value?.isSome = true ↔ ds = []

namespace Checked

variable {α β γ : Type} {ds es : List Diagnostic}

theorem reports_ok (a : α) : (Checked.ok a).Reports [] := ⟨rfl, ⟨fun _ => rfl, fun _ => rfl⟩⟩

theorem reports_refused (f : Finding) : (refused [f] : Checked α).Reports [f.diagnostic] :=
  ⟨rfl, ⟨fun h => absurd h Bool.false_ne_true, fun h => absurd h (List.cons_ne_nil _ _)⟩⟩

theorem Reports.map {c : Checked α} (h : c.Reports ds) (f : α → β) : (c.map f).Reports ds :=
  ⟨h.findings, by rw [Checked.map, Option.isSome_map, h.value]⟩

/-- **Neither of two parts hides the reports of the other.** -/
theorem Reports.both {a : Checked α} {b : Checked β} (ha : a.Reports ds) (hb : b.Reports es)
    (f : α → β → γ) : (Checked.both f a b).Reports (ds ++ es) where
  findings := by rw [Checked.both, List.map_append, ha.findings, hb.findings]
  value := by
    rw [List.append_eq_nil_iff, ← ha.value, ← hb.value]
    simp only [Checked.both]
    cases a.value? <;> cases b.value? <;> simp

end Checked

/-! ### Points -/

theorem diagnostics_indexFindings (g : Grid) (position : Nat) (i : Index) (d : Dim) :
    (indexFindings g position i d).map Finding.diagnostic = i.reports g position d := by
  have husable : i.Usable ↔ i.offset.toInt64?.isSome = true := (Double.toInt64?_isSome_iff _).symm
  unfold indexFindings Index.reports
  rw [List.map_append, if_congr husable rfl rfl]
  congr 1
  · split_ifs <;> rfl
  · split_ifs <;> rfl

theorem diagnostics_indicesFindings (g : Grid) (is : List Index) :
    ∀ (position : Nat) (ds : List Dim),
      (indicesFindings g position is ds).map Finding.diagnostic
        = ((is.zip ds).zipIdx position).flatMap fun ((i, d), position) => i.reports g position d := by
  induction is with
  | nil =>
    intro position ds
    rfl
  | cons i is ih =>
    intro position ds
    cases ds with
    | nil => rfl
    | cons d ds =>
      rw [indicesFindings, List.map_append, diagnostics_indexFindings, ih]
      rfl

/-- Indices in the right number are refused for what is wrong with them and nothing else. -/
theorem findings_elaborateIndices {g : Grid} {p : Point} (hlen : p.indices.length = g.dims.length) :
    (elaborateIndices g p).findings = indicesFindings g 0 p.indices g.dims := by
  have hiff := indicesFindings_eq_nil_iff g p.indices 0 g.dims hlen
  unfold elaborateIndices
  cases hfound : indicesFindings g 0 p.indices g.dims with
  | cons f fs => rfl
  | nil =>
    have hread := forall₂_filterMap_offsets (hiff.mp hfound).2
    have hmake := (Point.make_eq_ok_iff (g := g)
      (q := ⟨g, _, hread.length_eq.symm.trans hlen⟩)).mpr ⟨rfl, rfl⟩
    simp only [hmake]
    rfl

theorem reports_elaboratePoint (s : Solution) (p : Point) :
    (elaboratePoint s p).Reports (p.reports s) := by
  unfold elaboratePoint Point.reports
  cases s.grid? p.grid.name with
  | none => exact Checked.reports_refused _
  | some g =>
    dsimp only
    by_cases hlen : p.indices.length = g.dims.length
    · rw [if_pos hlen, if_pos hlen]
      have hdecides := elaborateIndices_decides g p hlen
      have hfindings : (elaborateIndices g p).findings.map Finding.diagnostic = _ :=
        (congrArg _ (findings_elaborateIndices hlen)).trans
          (diagnostics_indicesFindings g p.indices 0 g.dims)
      refine ⟨hfindings, ?_⟩
      rw [← hfindings, List.map_eq_nil_iff, hdecides.findings, Option.isSome_iff_exists]
      exact exists_congr hdecides.value
    · rw [if_neg hlen, if_neg hlen]
      exact Checked.reports_refused _

/-- **An expression has the reports of its points**, from left to right. -/
theorem reports_elaborateExpr (s : Solution) (e : Expr) :
    (elaborateExpr s e).Reports (e.points.flatMap (Point.reports s)) := by
  induction e with
  | number v span => exact Checked.reports_ok _
  | point p =>
    rw [Expr.points, List.flatMap_singleton]
    exact (reports_elaboratePoint s p).map _
  | binary op lhs rhs span ihl ihr =>
    rw [Expr.points, List.flatMap_append]
    exact ihl.both ihr _
  | neg operand span ih =>
    -- a negated number is a case of its own
    cases operand with
    | number v span => exact Checked.reports_ok _
    | point | neg | binary => exact ih.map _

/-! ## What is read -/

/-- The points of an expression that can be used are read one by one. -/
theorem read_elaborateExpr {s : Solution} {e : Expr} : ∀ {r : Stencil.Expr},
    (elaborateExpr s e).value? = some r →
      e.Means s.grids r
        ∧ List.Forall₂ (fun p q => (elaboratePoint s p).value? = some q) e.points r.points := by
  fun_induction elaborateExpr s e with
  | case1 v span =>
    intro r h
    obtain rfl := Option.some.inj h
    exact ⟨.number v span, .nil⟩
  | case2 p =>
    intro r h
    obtain ⟨q, hq, rfl⟩ := Option.map_eq_some_iff.mp h
    exact ⟨.point (means_of_elaboratePoint hq), .cons hq .nil⟩
  | case3 v inner span =>
    intro r h
    obtain rfl := Option.some.inj h
    exact ⟨.negNumber v inner span, .nil⟩
  | case4 e span hnumber ih =>
    intro r h
    obtain ⟨r', hr', rfl⟩ := Option.map_eq_some_iff.mp h
    obtain ⟨hmeans, hpoints⟩ := ih hr'
    exact ⟨.neg span (fun v inner => hnumber v inner) hmeans, hpoints⟩
  | case5 op lhs rhs span ihl ihr =>
    intro r h
    obtain ⟨a, ha, hrest⟩ := Option.bind_eq_some_iff.mp h
    obtain ⟨b, hb, rfl⟩ := Option.map_eq_some_iff.mp hrest
    obtain ⟨hleft, hleftPoints⟩ := ihl ha
    obtain ⟨hright, hrightPoints⟩ := ihr hb
    exact ⟨.binary op span hleft hright, List.rel_append hleftPoints hrightPoints⟩

/-- Along each dimension, a point has the offset that its index is worth. -/
theorem exists_mem_zip_iff {is : List Index} {os : List Int64}
    (h : List.Forall₂ (fun i o => i.offset.IsInt o.toInt) is os) (n : Int) : ∀ ds : List Dim,
    (∃ i d, (i, d) ∈ is.zip ds ∧ d.isStep = true ∧ i.offset.IsInt n)
      ↔ ∃ d o, (d, o) ∈ ds.zip os ∧ d.isStep = true ∧ o.toInt = n := by
  induction h with
  | nil =>
    intro ds
    simp
  | @cons i o is os hoffset _ ih =>
    intro ds
    cases ds with
    | nil => simp
    | cons d ds =>
      -- an index is worth one integer only
      have hhere : i.offset.IsInt n ↔ o.toInt = n :=
        ⟨fun hn => hoffset.unique hn, fun hn => hn ▸ hoffset⟩
      simp only [List.zip_cons_cons, List.mem_cons, Prod.mk.injEq]
      constructor
      · rintro ⟨i', d', ⟨rfl, rfl⟩ | hmem, hstep, hn⟩
        · exact ⟨d', o, Or.inl ⟨rfl, rfl⟩, hstep, hhere.mp hn⟩
        · obtain ⟨d'', o', hmem, hrest⟩ := (ih ds).mp ⟨i', d', hmem, hstep, hn⟩
          exact ⟨d'', o', Or.inr hmem, hrest⟩
      · rintro ⟨d', o', ⟨rfl, rfl⟩ | hmem, hstep, hn⟩
        · exact ⟨i, d', Or.inl ⟨rfl, rfl⟩, hstep, hhere.mpr hn⟩
        · obtain ⟨i', d'', hmem, hrest⟩ := (ih ds).mpr ⟨d', o', hmem, hstep, hn⟩
          exact ⟨i', d'', Or.inr hmem, hrest⟩

/-- A point steps to where the point does that it is read as. -/
theorem stepsTo_iff {s : Solution} {p : Point} {q : Stencil.Point}
    (h : (elaboratePoint s p).value? = some q) (n : Int) :
    p.StepsTo s n ↔ ∃ d o, (d, o) ∈ q.indices ∧ d.isStep = true ∧ o.toInt = n := by
  obtain ⟨hgrid, _, hoffsets⟩ := read_elaboratePoint h
  rw [Stencil.Point.indices, ← exists_mem_zip_iff hoffsets n q.grid.dims, Point.StepsTo, hgrid]
  simp only [Option.some.injEq, exists_eq_left']

theorem readsEarlier_iff {s : Solution} {lhs : Point} {rhs : Expr} {l : Stencil.Point}
    {r : Stencil.Expr} (hl : (elaboratePoint s lhs).value? = some l)
    (hr : (elaborateExpr s rhs).value? = some r) : ReadsEarlier s lhs rhs ↔ Later l r := by
  have hpoints := (read_elaborateExpr hr).2
  simp only [ReadsEarlier, Later, stepsTo_iff hl]
  constructor
  · rintro ⟨_, ⟨d, o, hd, hstep, rfl⟩, hlater⟩
    refine ⟨d, o, hd, hstep, fun q hq d' o' hd' hstep' => ?_⟩
    obtain ⟨p, hp, hread⟩ := forall₂_right hpoints hq
    exact hlater p hp _ ((stepsTo_iff hread _).mpr ⟨d', o', hd', hstep', rfl⟩)
  · rintro ⟨d, o, hd, hstep, hlater⟩
    refine ⟨o.toInt, ⟨d, o, hd, hstep, rfl⟩, fun p hp n hn => ?_⟩
    obtain ⟨q, hq, hread⟩ := forall₂_left hpoints hp
    obtain ⟨d', o', hd', hstep', rfl⟩ := (stepsTo_iff hread n).mp hn
    exact hlater q hq d' o' hd' hstep'

/-- The grid that a point was found in is the solution's grid of that name. -/
theorem grid?_of_read {s : Solution} {p : Point} {q : Stencil.Point}
    (h : (elaboratePoint s p).value? = some q) : s.grid? q.grid.name = some q.grid := by
  have hgrid := (read_elaboratePoint h).1
  rw [(means_of_elaboratePoint h).name, hgrid]

/-! ## Points in the order of the text -/

/-- The points of an expression lie in it, and each comes before the next. -/
theorem Expr.Nested.parts_points {source : String} {e : Expr} (h : e.Nested source) :
    e.span.Parts (e.points.map Point.span) := by
  induction e with
  | number v span => exact ⟨List.forall_mem_nil _, .nil⟩
  | point p =>
    exact ⟨List.forall_mem_singleton.mpr ⟨Nat.le_refl _, Nat.le_refl _⟩,
      List.pairwise_singleton _ _⟩
  | neg operand span ih =>
    obtain ⟨_, hparts, hoperand⟩ := h
    obtain ⟨hstart, hstop⟩ := hparts.inside _ (List.mem_singleton_self _)
    refine ⟨fun part hpart => ?_, (ih hoperand).ordered⟩
    obtain ⟨hpartStart, hpartStop⟩ := (ih hoperand).inside part hpart
    exact ⟨hstart.trans hpartStart, hpartStop.trans hstop⟩
  | binary op lhs rhs span ihl ihr =>
    obtain ⟨_, hparts, hlhs, hrhs⟩ := h
    obtain ⟨hleft, hright⟩ := List.forall_mem_cons.mp hparts.inside
    have hright := hright _ (List.mem_singleton_self _)
    have hbefore : lhs.span.Before rhs.span := List.pairwise_pair.mp hparts.ordered
    have hl := ihl hlhs
    have hr := ihr hrhs
    rw [Expr.points, List.map_append]
    constructor
    · refine List.forall_mem_append.mpr ⟨fun part hpart => ?_, fun part hpart => ?_⟩
      · have hin := hl.inside part hpart
        exact ⟨hleft.1.trans hin.1, hin.2.trans hleft.2⟩
      · have hin := hr.inside part hpart
        exact ⟨hright.1.trans hin.1, hin.2.trans hright.2⟩
    · refine List.pairwise_append.mpr ⟨hl.ordered, hr.ordered, fun a ha b hb => ?_⟩
      -- a point of the left operand ends within it, and so before the right operand starts
      exact Nat.le_trans (Nat.le_trans (hl.inside a ha).2 hbefore) (hr.inside b hb).1

theorem ordered_points {source : String} {stmt : Statement} (h : stmt.Nested source) {lhs : Point}
    {rhs : Expr} (hclause : stmt.clause = .equation lhs rhs) :
    ((lhs :: rhs.points).map Point.span).Pairwise Span.Before := by
  obtain ⟨clause, span⟩ := stmt
  obtain rfl : clause = .equation lhs rhs := hclause
  have hparts := (show rhs.Nested source from h.clause.2).parts_points
  have hbefore : lhs.span.Before rhs.span := List.pairwise_pair.mp h.parts.ordered
  refine .cons (fun part hpart => ?_) hparts.ordered
  exact Nat.le_trans hbefore (hparts.inside part hpart).1

/-! ## Equations -/

section Sides

variable {σ : Scope} {lhs : Point} {rhs : Expr} {l : Stencil.Point} {r : Stencil.Expr}

theorem reports_sides (s : Solution) (lhs : Point) (rhs : Expr) :
    (sides s lhs rhs).Reports ((lhs :: rhs.points).flatMap (Point.reports s)) :=
  (reports_elaboratePoint s lhs).both (reports_elaborateExpr s rhs) Prod.mk

theorem read_sides {s : Solution} (h : (sides s lhs rhs).value? = some (l, r)) :
    (elaboratePoint s lhs).value? = some l ∧ (elaborateExpr s rhs).value? = some r := by
  obtain ⟨l', hl, hrest⟩ := Option.bind_eq_some_iff.mp h
  obtain ⟨r', hr, hpair⟩ := Option.map_eq_some_iff.mp hrest
  obtain ⟨rfl, rfl⟩ := Prod.mk.inj hpair
  exact ⟨hl, hr⟩

/-- The points of both sides are points of the solution's own grids. -/
theorem grid?_of_sides {s : Solution} (hl : (elaboratePoint s lhs).value? = some l)
    (hr : (elaborateExpr s rhs).value? = some r) :
    ∀ q ∈ l :: r.points, s.grid? q.grid.name = some q.grid := by
  refine List.forall_mem_cons.mpr ⟨grid?_of_read hl, fun q hq => ?_⟩
  obtain ⟨p, _, hread⟩ := forall₂_right (read_elaborateExpr hr).2 hq
  exact grid?_of_read hread

end Sides

/-- **Every bad reference in an equation is reported, once and in order.** Whatever was declared and
    reported before, an equation statement adds the reports of its points, the written one first and
    then the others from left to right. If there are none, but the written point is not later than
    all that it reads, it adds one report of that. The equation is added to the solution if and only
    if nothing is reported, and nothing else changes. In a statement of a parsed text, left to right
    is the order of the text. -/
theorem equation_reports (σ : Scope) (lhs : Point) (rhs : Expr) (span : Span) :
    let s := σ.draft.solution
    let reports := (lhs :: rhs.points).flatMap (Point.reports s)
    (∃ (added : List Finding) (last : List Diagnostic) (draft : Draft),
      σ.statement ⟨.equation lhs rhs, span⟩
          = { σ with draft := draft, findings := σ.findings ++ added }
        ∧ added.map Finding.diagnostic = reports ++ last
        ∧ (reports = [] ∧ ¬ ReadsEarlier s lhs rhs →
            ∃ message, last = [⟨.error, some "E0140", span, message,
              some "the written point must be at a later step than every point it reads", []⟩])
        ∧ (¬ (reports = [] ∧ ¬ ReadsEarlier s lhs rhs) → last = [])
        ∧ (added = [] → ∃ e : Equation, lhs.Means s.grids e.lhs ∧ rhs.Means s.grids e.rhs
            ∧ draft.solution = { s with equations := s.equations ++ [e] })
        ∧ (added ≠ [] → draft = σ.draft))
    ∧ ∀ source program, (parseText source).program? = some program →
        ⟨.equation lhs rhs, span⟩ ∈ program.statements →
        ((lhs :: rhs.points).map Point.span).Pairwise Span.Before := by
  intro s reports
  refine ⟨?_, fun source program hprogram hmem => ?_⟩
  swap
  · obtain ⟨d, hd, rfl⟩ := Program.derivation_of_parseText hprogram
    exact ordered_points ((d.nested_tree hd _).statements _ hmem) rfl
  have hsides := reports_sides s lhs rhs
  have hread : ∀ {l r}, (sides s lhs rhs).value? = some (l, r) →
      reports = [] ∧ (sides s lhs rhs).findings = [] := by
    intro l r hvalue
    have hreports : reports = [] := hsides.value.mp (by rw [hvalue]; rfl)
    exact ⟨hreports, List.map_eq_nil_iff.mp (hsides.findings.trans hreports)⟩
  have heffect := σ.effect_statement ⟨.equation lhs rhs, span⟩
  generalize σ.statement ⟨.equation lhs rhs, span⟩ = σ' at heffect
  cases heffect with
  | sidesUnread hvalue =>
    have hreports : reports ≠ [] := by
      intro hnil
      have hsome := hsides.value.mpr hnil
      rw [hvalue] at hsome
      cases hsome
    refine ⟨(sides s lhs rhs).findings, [], σ.draft, rfl, ?_, fun h => absurd h.1 hreports,
      fun _ => rfl, fun hnil => ?_, fun _ => rfl⟩
    · rw [List.append_nil]
      exact hsides.findings
    · have hempty := hsides.findings
      rw [hnil] at hempty
      exact absurd hempty.symm hreports
  | @equation _ _ _ l r e draft hvalue hcall =>
    obtain ⟨hl, hr⟩ := read_sides hvalue
    obtain ⟨hreports, hnone⟩ := hread hvalue
    obtain ⟨hlater, _⟩ := (σ.draft.exists_equate_iff l r).mp ⟨e, draft, hcall⟩
    have hearlier := (readsEarlier_iff hl hr).mpr hlater
    obtain ⟨rfl, rfl, hdraft⟩ := Draft.eq_of_equate hcall
    refine ⟨[], [], draft, ?_, by rw [hreports]; rfl, fun h => absurd hearlier h.2, fun _ => rfl,
      fun _ => ?_, fun h => absurd rfl h⟩
    · rw [hnone, Scope.report_nil, List.append_nil]
    · exact ⟨e, means_of_elaboratePoint hl, (read_elaborateExpr hr).1, by rw [hdraft]; rfl⟩
  | @equationRefused _ _ _ l r e hvalue hcall =>
    obtain ⟨hl, hr⟩ := read_sides hvalue
    obtain ⟨hreports, hnone⟩ := hread hvalue
    -- the sides are over the solution's own grids, so it can only be their steps
    have hlater : ¬ Later l r := by
      intro hlater
      obtain ⟨e', d', hok⟩ := (σ.draft.exists_equate_iff l r).mpr ⟨hlater, grid?_of_sides hl hr⟩
      rw [hok] at hcall
      cases hcall
    have hearlier : ¬ ReadsEarlier s lhs rhs := fun h => hlater ((readsEarlier_iff hl hr).mp h)
    obtain ⟨fault, hequate⟩ := σ.draft.equate_of_not_later hlater
    rw [hequate] at hcall
    obtain rfl := Except.error.inj (Prod.mk.inj hcall).1
    refine ⟨[⟨.model (.causality (equationText l r) fault), span⟩], _, σ.draft, ?_,
      by rw [hreports]; rfl, fun _ => ⟨_, rfl⟩, fun h => absurd ⟨hreports, hearlier⟩ h,
      fun h => absurd h (List.cons_ne_nil _ _), fun _ => rfl⟩
    rw [hnone, Scope.report_nil]
    rfl

/-- Under a negation and in both operands, an index that is wrong twice. -/
example : (compileSource "solution a; step t; domain x; grid u(t, x);
      w(t) = -(u(x, t + 0.5) * (u(t) - v(x)));" none none).diagnostics.map Diagnostic.code
    = [some "E0130", some "E0131", some "E0131", some "E0133", some "E0132", some "E0130"] := by
  decide +kernel

end Stencil.Source
