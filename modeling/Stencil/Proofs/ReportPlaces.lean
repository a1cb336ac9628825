import Mathlib
import Stencil.Command.Run
import Stencil.Proofs.Tiling

/-!
# Every report has a place

A report names the span of the text that it is about, and perhaps spans that explain it. All of them
can be shown: they lie in the text and end where characters end, so that the line and the column of
every report are defined (`diagnostics_placed`).

Places are made in two ways only. The grammar gives every node the span from its first token to its
last one (`Grammar.Program.placed_tree`). Elaboration makes no places: whatever holds of the places
in a program holds of the places in its findings, also of those that are kept from earlier
statements (`Program.placed_elaborate`). This is read off the list of all that a statement can do
(`Scope.Effect`): each report in it has a place of the statement or one that the scope keeps.

The first half is therefore proved for any property of spans, `P`, that the places of a program
have, and only the second half says which one it is: a span from the start of one token to the end
of a token that is not before it (`Span.Joins`), or the end of the text. That a later token does not
end before an earlier one starts comes from the scanner, which goes through the text once
(`pairwise_lexemes`).
-/

namespace Stencil.Source

/-! ## Places in programs and findings -/

section Placed

variable (P : Span → Prop)

structure Index.Placed (i : Index) : Prop where
  dim : P i.dim.span
  whole : P i.span

structure Point.Placed (p : Point) : Prop where
  grid : P p.grid.span
  whole : P p.span
  indices : ∀ i ∈ p.indices, i.Placed P

structure Finding.Placed (f : Finding) : Prop where
  span : P f.span
  related : ∀ r ∈ f.problem.related, P r.span

/-- All that was found in a part is placed. -/
def Checked.Placed {α : Type} (c : Checked α) : Prop := ∀ f ∈ c.findings, f.Placed P

/-- The places that a scope keeps, and those that it has reported. -/
structure Scope.Placed (σ : Scope) : Prop where
  dims : ∀ d ∈ σ.dims, P d.span
  step : ∀ span ∈ σ.step, P span
  findings : ∀ f ∈ σ.findings, f.Placed P

end Placed

/-- Of an expression, the points alone are ever reported. -/
def Expr.Placed (P : Span → Prop) : Expr → Prop
  | .number _ _ => True
  | .point p => p.Placed P
  | .neg operand _ => operand.Placed P
  | .binary _ lhs rhs _ => lhs.Placed P ∧ rhs.Placed P

def Clause.Placed (P : Span → Prop) : Clause → Prop
  | .solution name => P name.span
  | .set name _ valueSpan => P name.span ∧ P valueSpan
  | .step name => P name.span
  | .domain names => ∀ n ∈ names, P n.span
  | .grid name dims => P name.span ∧ ∀ n ∈ dims, P n.span
  | .equation lhs rhs => lhs.Placed P ∧ rhs.Placed P

structure Statement.Placed (P : Span → Prop) (s : Statement) : Prop where
  clause : s.clause.Placed P
  whole : P s.span

structure Program.Placed (P : Span → Prop) (p : Program) : Prop where
  statements : ∀ s ∈ p.statements, s.Placed P
  whole : P p.span

section Elaboration

variable {P : Span → Prop}

/-- Most problems refer to no other place. -/
theorem Finding.Placed.plain {f : Finding} (h : P f.span) (hplain : f.problem.related = []) :
    f.Placed P :=
  ⟨h, by rw [hplain]; exact List.forall_mem_nil _⟩

/-! ### Points and expressions -/

/-- What is found in two parts has the places of the two parts. -/
theorem Checked.Placed.both {α β γ : Type} {f : α → β → γ} {a : Checked α} {b : Checked β}
    (ha : a.Placed P) (hb : b.Placed P) : (Checked.both f a b).Placed P :=
  List.forall_mem_append.mpr ⟨ha, hb⟩

/-- A part that is turned down with one finding has the places of that finding. -/
theorem Checked.Placed.refused {α : Type} {f : Finding} (h : f.Placed P) :
    (Checked.refused [f] : Checked α).Placed P :=
  List.forall_mem_singleton.mpr h

theorem placed_indexFindings {i : Index} (hi : i.Placed P) (g : Grid) (position : Nat) (d : Dim) :
    ∀ f ∈ indexFindings g position i d, f.Placed P := by
  refine List.forall_mem_append.mpr ⟨?_, ?_⟩
  · split_ifs
    · exact List.forall_mem_nil _
    · exact List.forall_mem_singleton.mpr (.plain hi.dim rfl)
  · split_ifs
    · exact List.forall_mem_nil _
    · exact List.forall_mem_singleton.mpr (.plain hi.whole rfl)

/-- The indices of a point are checked side by side with the dimensions of its grid, each at its own
    place. -/
theorem placed_indicesFindings {is : List Index} (his : ∀ i ∈ is, i.Placed P) (g : Grid) :
    ∀ (position : Nat) (ds : List Dim), ∀ f ∈ indicesFindings g position is ds, f.Placed P := by
  induction is with
  | nil =>
    intro position ds
    exact List.forall_mem_nil _
  | cons i is ih =>
    intro position ds
    obtain ⟨hi, his⟩ := List.forall_mem_cons.mp his
    cases ds with
    | nil => exact List.forall_mem_nil _
    | cons d ds =>
      exact List.forall_mem_append.mpr ⟨placed_indexFindings hi g position d, ih his _ ds⟩

/-- An index that does not fit is reported at the index, and what the model refuses about the point
    as a whole at the point. -/
theorem placed_elaborateIndices {p : Point} (hp : p.Placed P) (g : Grid) :
    (elaborateIndices g p).Placed P := by
  have hfindings := placed_indicesFindings hp.indices g 0 g.dims
  unfold elaborateIndices
  split
  · split
    · exact List.forall_mem_nil _
    · exact .refused (.plain hp.whole rfl)
  · exact hfindings

/-- An unknown grid is reported at its name, a wrong number of indices at the point, and all else
    where the indices are checked. -/
theorem placed_elaboratePoint {p : Point} (hp : p.Placed P) (s : Solution) :
    (elaboratePoint s p).Placed P := by
  unfold elaboratePoint
  cases s.grid? p.grid.name with
  | none => exact .refused (.plain hp.grid rfl)
  | some g =>
    dsimp only
    split_ifs
    · exact placed_elaborateIndices hp g
    · exact .refused (.plain hp.whole rfl)

/-- The places of what is found in an expression are places of its points, by induction on the
    expression. -/
theorem placed_elaborateExpr {e : Expr} (he : e.Placed P) (s : Solution) :
    (elaborateExpr s e).Placed P := by
  induction e with
  | number v span => exact List.forall_mem_nil _
  | point p => exact placed_elaboratePoint he s
  | binary op lhs rhs span ihl ihr => exact (ihl he.1).both (ihr he.2)
  | neg operand span ih =>
    -- a negated number is a case of its own
    cases operand with
    | number v span => exact List.forall_mem_nil _
    | point | neg | binary => exact ih he

/-! ### Statements -/

namespace Scope

variable {σ σ' : Scope} {span : Span}

/-- A scope keeps its property when findings that have it are reported. -/
theorem Placed.report (hσ : σ.Placed P) {fs : List Finding} (hfs : ∀ f ∈ fs, f.Placed P) :
    (σ.report fs).Placed P :=
  ⟨hσ.dims, hσ.step, List.forall_mem_append.mpr ⟨hσ.findings, hfs⟩⟩

theorem Placed.report_one (hσ : σ.Placed P) {f : Finding} (hf : f.Placed P) :
    (σ.report [f]).Placed P :=
  hσ.report (List.forall_mem_singleton.mpr hf)

/-- The draft has no places, so that it can be changed at will. -/
theorem Placed.withDraft (hσ : σ.Placed P) (draft : Draft) : { σ with draft := draft }.Placed P :=
  ⟨hσ.dims, hσ.step, hσ.findings⟩

/-- A name is declared where it stands; a name that is declared again is reported with the place
    where it was first. -/
theorem Placed.declares (hσ : σ.Placed P) {id : Ident} (hid : P id.span) {kind : DimKind}
    (hdecl : σ.Declares id kind σ') : σ'.Placed P := by
  cases hdecl with
  | @repeated prior hprior =>
    have hmem : prior ∈ σ.dims := List.mem_of_find?_eq_some hprior
    exact hσ.report_one ⟨hid, List.forall_mem_singleton.mpr (hσ.dims prior hmem)⟩
  | entered _ =>
    refine ⟨List.forall_mem_append.mpr ⟨hσ.dims, List.forall_mem_singleton.mpr hid⟩, ?_,
      hσ.findings⟩
    show ∀ span ∈ (if kind = .step then some id.span else σ.step), P span
    split_ifs
    · intro span hspan
      rw [← Option.mem_some_iff.mp hspan]
      exact hid
    · exact hσ.step

/-- Findings on both sides of an equation are reported together, with the places of both. -/
theorem Placed.report_sides (hσ : σ.Placed P) {lhs : Point} (hlhs : lhs.Placed P) {rhs : Expr}
    (hrhs : rhs.Placed P) : (σ.report (sides σ.draft.solution lhs rhs).findings).Placed P :=
  hσ.report (Checked.Placed.both (f := Prod.mk) (placed_elaboratePoint hlhs σ.draft.solution)
    (placed_elaborateExpr hrhs σ.draft.solution))

/-- **A statement reports places of its own, or places that the scope keeps.** -/
theorem Placed.effect {clause : Clause} (hσ : σ.Placed P) (hclause : clause.Placed P)
    (hspan : P span) (heffect : Effect span σ clause σ') : σ'.Placed P := by
  induction heffect with
  | named | domainNone => exact hσ
  | widthSet | grid => exact hσ.withDraft _
  | widthUnsupported => exact hσ.report_one (.plain hclause.2 rfl)
  | settingUnknown => exact hσ.report_one (.plain hclause.1 rfl)
  | step _ hdecl => exact hσ.declares hclause hdecl
  | stepSecond hfirst =>
    exact hσ.report_one ⟨hclause, List.forall_mem_singleton.mpr (hσ.step _ hfirst)⟩
  | domain hdecl _ ih =>
    obtain ⟨hid, hids⟩ := List.forall_mem_cons.mp hclause
    exact ih (hσ.declares hid hdecl) hids
  | dimsUnknown =>
    refine hσ.report (List.forall_mem_map.mpr fun id hid => ?_)
    exact .plain (hclause.2 id (List.mem_of_mem_filter hid)) rfl
  | gridRefused => exact hσ.report_one (.plain hclause.1 rfl)
  | sidesUnread => exact hσ.report_sides hclause.1 hclause.2
  | equation => exact (hσ.report_sides hclause.1 hclause.2).withDraft _
  | equationRefused =>
    exact (hσ.report_sides hclause.1 hclause.2).report_one (.plain hspan rfl)

/-- **The run**: statements keep what each of them keeps, and so the findings of a program have its
    places. -/
theorem Placed.statements {stmts : List Statement} (hstmts : ∀ s ∈ stmts, s.Placed P)
    (hσ : σ.Placed P) : (stmts.foldl Scope.statement σ).Placed P := by
  apply statements_induct (P := Scope.Placed P)
  · intro σ stmt hstmt hσ
    exact hσ.effect (hstmts stmt hstmt).clause (hstmts stmt hstmt).whole (effect_statement σ stmt)
  · exact hσ

end Scope

/-! ### Programs -/

theorem Program.placed_solutionNames {p : Program} (hp : p.Placed P) :
    ∀ id ∈ p.solutionNames, P id.span := by
  intro id hid
  obtain ⟨⟨clause, span⟩, hmem, hclause⟩ := List.mem_filterMap.mp hid
  have hplaced := (hp.statements _ hmem).clause
  cases clause with
  | solution name =>
    obtain rfl := Option.some.inj hclause
    exact hplaced
  | _ => cases hclause

/-- A missing name is reported at the whole program, each further name at its own place and with
    that of the first one. -/
theorem Program.placed_header {p : Program} (hp : p.Placed P) :
    ∀ f ∈ p.header.2, f.Placed P := by
  have hnames := placed_solutionNames hp
  unfold header
  cases hfirst : p.solutionNames with
  | nil => exact List.forall_mem_singleton.mpr (.plain hp.whole rfl)
  | cons first others =>
    rw [hfirst] at hnames
    obtain ⟨hfirst, hothers⟩ := List.forall_mem_cons.mp hnames
    refine List.forall_mem_map.mpr ?_
    intro id hid
    exact ⟨hothers id hid, List.forall_mem_singleton.mpr hfirst⟩

/-- **Elaboration makes no places**: whatever holds of a program's places holds of those of its
    findings. -/
theorem Program.placed_elaborate {p : Program} (hp : p.Placed P) (log : Option Sink) :
    (p.elaborate log).Placed P :=
  Scope.Placed.statements hp.statements
    ⟨List.forall_mem_nil _, fun _ h => absurd h (by simp), placed_header hp⟩

/-- An override that is not supported is reported at the span it is charged to. -/
theorem placed_override {o : Outcome} (ho : ∀ f ∈ o.findings, f.Placed P) {span : Span}
    (hspan : P span) (elementBytes : Option Nat) :
    ∀ f ∈ (o.override span elementBytes).findings, f.Placed P := by
  unfold Outcome.override
  split
  · split
    · exact ho
    · exact List.forall_mem_append.mpr ⟨ho, List.forall_mem_singleton.mpr (.plain hspan rfl)⟩
  · exact ho

end Elaboration

/-! ## Places in derivations -/

/-- The span runs from the start of a token to the end of the same one or of a later one. -/
def Span.Joins (span : Span) (xs : List Lexeme) : Prop :=
  ∃ x ∈ xs, ∃ y ∈ xs, span = ⟨x.span.start, y.span.stop⟩ ∧ (y = x ∨ [x, y].Sublist xs)

/-- What spans some tokens of a part spans some tokens of the whole. -/
theorem Span.Joins.mono {span : Span} {xs ys : List Lexeme} (h : span.Joins xs)
    (hsub : xs.Sublist ys) : span.Joins ys := by
  obtain ⟨x, hx, y, hy, hspan, horder⟩ := h
  exact ⟨x, hsub.subset hx, y, hsub.subset hy, hspan, horder.imp_right fun h => h.trans hsub⟩

theorem joins_of_mem {x : Lexeme} {xs : List Lexeme} (hx : x ∈ xs) : x.span.Joins xs :=
  ⟨x, hx, x, hx, rfl, Or.inl rfl⟩

theorem joins_of_mem_tail (x : Lexeme) {y : Lexeme} {ys : List Lexeme} (hy : y ∈ ys) :
    Span.Joins ⟨x.span.start, y.span.stop⟩ (x :: ys) :=
  ⟨x, List.mem_cons_self, y, List.mem_cons_of_mem x hy, rfl,
    Or.inr ((List.singleton_sublist.mpr hy).cons_cons x)⟩

/-- The span of a phrase: from the start of its first token to the end of its last one. -/
theorem joins_head_last {x y : Lexeme} {xs : List Lexeme} (hhead : xs.head? = some x)
    (hlast : xs.getLast? = some y) : Span.Joins ⟨x.span.start, y.span.stop⟩ xs := by
  cases xs with
  | nil => cases hhead
  | cons x' ys =>
    obtain rfl := Option.some.inj hhead
    cases ys with
    | nil =>
      obtain rfl := Option.some.inj hlast
      exact joins_of_mem List.mem_cons_self
    | cons y' ys =>
      rw [List.getLast?_cons_cons] at hlast
      exact joins_of_mem_tail _ (List.mem_of_getLast? hlast)

namespace Grammar

/-- The tokens of an item are some of the tokens of its list, with separators and other items left
    out. -/
theorem lexemes_sublist_of_mem {α : Type} {f : α → List Lexeme} {a : α} {s : Separated α}
    (h : a ∈ s.items) : (f a).Sublist (s.lexemes f) := by
  obtain ⟨first, rest⟩ := s
  rcases List.mem_cons.mp h with rfl | h
  · exact List.sublist_append_left _ _
  · obtain ⟨⟨comma, a'⟩, hmem, rfl⟩ := List.mem_map.mp h
    have hitem : (Symbol.comma.lexeme comma :: f a').Sublist (Separated.restLexemes f rest) :=
      List.sublist_flatten_of_mem (List.mem_map_of_mem hmem)
    exact ((List.sublist_cons_self _ _).trans hitem).trans (List.sublist_append_right _ _)

theorem lexemes_sublist_of_mem_list {α : Type} {f : α → List Lexeme} {a : α}
    {o : Option (Separated α)} (h : a ∈ listItems o) : (f a).Sublist (listLexemes f o) := by
  cases o with
  | none => exact absurd h List.not_mem_nil
  | some s => exact lexemes_sublist_of_mem h

/-- An index ends with its number if it has one, and with its name otherwise. -/
theorem Index.joins_tree (i : Index) : i.tree.span.Joins i.lexemes := by
  obtain ⟨dim, offset⟩ := i
  cases offset with
  | none => exact joins_of_mem (x := dim.lexeme) List.mem_cons_self
  | some o =>
    refine joins_of_mem_tail dim.lexeme (y := o.number.lexeme) ?_
    simp [Offset.lexemes]

theorem Point.joins_tree (p : Point) : p.tree.span.Joins p.lexemes := by
  refine joins_of_mem_tail p.grid.lexeme (y := Symbol.closeParen.lexeme p.closeSpan) ?_
  simp

theorem Statement.getLast?_lexemes (s : Statement) :
    s.lexemes.getLast? = some (Symbol.semicolon.lexeme s.semicolonSpan) :=
  List.getLast?_concat

theorem Statement.joins_tree (s : Statement) : s.tree.span.Joins s.lexemes := by
  obtain ⟨x, xs, hx, hstart⟩ := s.lexemes_eq_cons
  have hhead : s.lexemes.head? = some x := by rw [hx]; rfl
  have hjoins := joins_head_last hhead s.getLast?_lexemes
  rw [hstart] at hjoins
  exact hjoins

/-- What a phrase stands for is placed, where its left operand is, if it has one. -/
def Part.Placed (P : Span → Prop) : (part : Part) → part.Tree → Prop
  | .terms, t | .factors, t => ∀ lhs : Expr, lhs.Placed P → (t lhs).Placed P
  | .expr, t | .product, t | .unary, t | .atom, t => Expr.Placed P t

section Derivations

variable {xs : List Lexeme} {P : Span → Prop} (hP : ∀ span : Span, span.Joins xs → P span)

include hP

theorem Index.placed_tree (i : Index) (h : i.lexemes.Sublist xs) : i.tree.Placed P := by
  have hdim : P i.dim.span :=
    hP _ ((joins_of_mem (x := i.dim.lexeme) List.mem_cons_self).mono h)
  have hwhole := hP _ (i.joins_tree.mono h)
  obtain ⟨dim, offset⟩ := i
  cases offset <;> exact ⟨hdim, hwhole⟩

/-- A point has its own place, that of its grid's name and those of its indices. -/
theorem Point.placed_tree (p : Point) (h : p.lexemes.Sublist xs) : p.tree.Placed P where
  grid := hP _ ((joins_of_mem (x := p.grid.lexeme) List.mem_cons_self).mono h)
  whole := hP _ (p.joins_tree.mono h)
  indices := by
    refine List.forall_mem_map.mpr ?_
    intro i hi
    have hlist : i.lexemes.Sublist p.lexemes :=
      (((lexemes_sublist_of_mem_list hi).trans (List.sublist_append_left _ _)).cons _).cons _
    exact i.placed_tree hP (hlist.trans h)

/-- **Every part of an expression has a place**: by induction on the phrase, where a list of terms
    is placed if what stands before it is. -/
theorem Phrase.placed_tree {part : Part} (d : Phrase part) :
    d.lexemes.Sublist xs → part.Placed P d.tree := by
  induction d with
  | expr first rest ihf ihr =>
    intro h
    -- the first operand is what stands before the rest of the list
    exact ihr ((List.sublist_append_right _ _).trans h) _
      (ihf ((List.sublist_append_left _ _).trans h))
  | noTerms =>
    intro _ lhs hlhs
    exact hlhs
  | term sign span operand rest iho ihr =>
    intro h lhs hlhs
    have h := (List.sublist_cons_self _ _).trans h
    exact ihr ((List.sublist_append_right _ _).trans h) _
      ⟨hlhs, iho ((List.sublist_append_left _ _).trans h)⟩
  | product first rest ihf ihr =>
    intro h
    exact ihr ((List.sublist_append_right _ _).trans h) _
      (ihf ((List.sublist_append_left _ _).trans h))
  | noFactors =>
    intro _ lhs hlhs
    exact hlhs
  | factor scale span operand rest iho ihr =>
    intro h lhs hlhs
    have h := (List.sublist_cons_self _ _).trans h
    exact ihr ((List.sublist_append_right _ _).trans h) _
      ⟨hlhs, iho ((List.sublist_append_left _ _).trans h)⟩
  | plain operand ih => exact ih
  | minus span operand ih =>
    intro h
    exact ih ((List.sublist_cons_self _ _).trans h)
  | number n =>
    intro _
    exact trivial
  | point p => exact p.placed_tree hP
  | parens openSpan inner closeSpan ih =>
    intro h
    exact ih (((List.sublist_append_left _ _).cons _).trans h)

theorem Clause.placed_tree (c : Clause) (h : c.lexemes.Sublist xs) : c.tree.Placed P := by
  have hplaced : ∀ {x : Lexeme}, x ∈ c.lexemes → P x.span :=
    fun hx => hP _ ((joins_of_mem hx).mono h)
  cases c with
  | solution span name => exact hplaced (x := name.lexeme) (by simp [lexemes])
  | set span name equalsSpan value =>
    exact ⟨hplaced (x := name.lexeme) (by simp [lexemes]),
      hplaced (x := value.lexeme) (by simp [lexemes])⟩
  | step span name => exact hplaced (x := name.lexeme) (by simp [lexemes])
  | domain span names =>
    intro n hn
    have hmem : n.lexeme ∈ listLexemes (fun n => [n.lexeme]) (some names) := mem_listLexemes hn
    exact hplaced (x := n.lexeme) (List.mem_cons_of_mem _ hmem)
  | grid span name openSpan dims closeSpan =>
    refine ⟨hplaced (x := name.lexeme) (by simp [lexemes]), ?_⟩
    intro n hn
    have hmem : n.lexeme ∈ listLexemes (fun n => [n.lexeme]) dims := mem_listLexemes hn
    exact hplaced (x := n.lexeme) (by simp [lexemes, hmem])
  | equation lhs equalsSpan rhs =>
    exact ⟨lhs.placed_tree hP ((List.sublist_append_left _ _).trans h),
      rhs.placed_tree hP
        (((List.sublist_cons_self _ _).trans (List.sublist_append_right _ _)).trans h)⟩

/-- The clause of a statement has places among the tokens of the statement, and so has the statement
    itself. -/
theorem Statement.placed_tree (s : Statement) (h : s.lexemes.Sublist xs) : s.tree.Placed P where
  clause := s.clause.placed_tree hP ((List.sublist_append_left _ _).trans h)
  whole := hP _ (s.joins_tree.mono h)

end Derivations

/-- **Every place in a program joins tokens of its derivation**, except that a program without
    tokens stands at the end of the text. -/
theorem Program.placed_tree {P : Span → Prop} (p : Program) (length : Nat)
    (hP : ∀ span : Span, span.Joins p.lexemes → P span) (hend : P ⟨length, length⟩) :
    (p.tree length).Placed P where
  statements := by
    refine List.forall_mem_map.mpr ?_
    intro s hs
    have hsub : s.lexemes.Sublist p.lexemes :=
      List.sublist_flatten_of_mem (List.mem_map_of_mem hs)
    exact s.placed_tree hP hsub
  whole := by
    rw [← programSpan_lexemes]
    unfold programSpan
    cases hhead : p.lexemes.head? with
    | none => exact hend
    | some x =>
      cases hlast : p.lexemes.getLast? with
      | none => exact hend
      | some y => exact hP _ (joins_head_last hhead hlast)

end Grammar

/-! ## Places that can be shown -/

/-- The spans of the tokens and of the stray characters. -/
def Scan.spans (s : Scan) : List Span := s.lexemes.map Lexeme.span ++ s.strays.map Stray.span

/-- From the start of a token or a stray character to the end of one, or the end of the text. -/
def Span.Shown (span : Span) (source : String) : Prop :=
  span = ⟨source.utf8ByteSize, source.utf8ByteSize⟩
    ∨ span.start < span.stop ∧ ∃ a ∈ (scan source).spans, ∃ b ∈ (scan source).spans,
        span.start = a.start ∧ span.stop = b.stop

variable {source : String}

theorem mem_spans_of_lexeme {x : Lexeme} (hx : x ∈ (scan source).lexemes) :
    x.span ∈ (scan source).spans :=
  List.mem_append_left _ (List.mem_map_of_mem hx)

theorem mem_spans_of_stray {s : Stray} (hs : s ∈ (scan source).strays) :
    s.span ∈ (scan source).spans :=
  List.mem_append_right _ (List.mem_map_of_mem hs)

/-- The scanner goes from one boundary of characters to a later one, for tokens and stray characters
    alike. -/
theorem within_of_mem_spans {span : Span} (h : span ∈ (scan source).spans) :
    span.start < span.stop ∧ span.Within source := by
  rcases List.mem_append.mp h with h | h
  · obtain ⟨x, hx, rfl⟩ := List.mem_map.mp h
    exact within_of_mem_marks (mem_marks_of_lexeme hx)
  · obtain ⟨s, hs, rfl⟩ := List.mem_map.mp h
    exact within_of_mem_marks (mem_marks_of_stray hs)

theorem shown_of_mem_spans {span : Span} (h : span ∈ (scan source).spans) : span.Shown source :=
  Or.inr ⟨(within_of_mem_spans h).1, span, h, span, h, rfl, rfl⟩

variable (source) in
/-- Tokens come in the order of the text and do not overlap. -/
theorem pairwise_lexemes :
    (scan source).lexemes.Pairwise fun x y => x.span.stop ≤ y.span.start := by
  rw [← lexemes_marks]
  refine List.pairwise_filterMap.mpr ((pairwise_marks source).imp ?_)
  intro m m' hle x hx y hy
  cases m with
  | stray s => cases hx
  | token x' =>
    cases m' with
    | stray s => cases hy
    | token y' =>
      obtain rfl := Option.some.inj hx
      obtain rfl := Option.some.inj hy
      exact hle

/-- Tokens are in order, so that what joins two of them is not empty. -/
theorem start_lt_stop_of_joins {span : Span} (h : span.Joins (scan source).lexemes) :
    span.start < span.stop := by
  obtain ⟨x, hx, y, hy, rfl, horder⟩ := h
  have hxspan := (within_of_mem_spans (mem_spans_of_lexeme hx)).1
  have hyspan := (within_of_mem_spans (mem_spans_of_lexeme hy)).1
  show x.span.start < y.span.stop
  rcases horder with rfl | hsub
  · exact hxspan
  · have hpair := (pairwise_lexemes source).sublist hsub
    have hle : x.span.stop ≤ y.span.start := by simpa using hpair
    omega

/-- A span from one token to another one can be shown, because the second one does not end before
    the first one starts. -/
theorem shown_of_joins {span : Span} (h : span.Joins (scan source).lexemes) :
    span.Shown source := by
  have hlt := start_lt_stop_of_joins h
  obtain ⟨x, hx, y, hy, rfl, _⟩ := h
  exact Or.inr ⟨hlt, x.span, mem_spans_of_lexeme hx, y.span, mem_spans_of_lexeme hy, rfl, rfl⟩

theorem Span.Shown.within {span : Span} (h : span.Shown source) : span.Within source := by
  rcases h with rfl | ⟨hlt, a, ha, b, hb, hstart, hstop⟩
  · have hend : (⟨source.utf8ByteSize⟩ : String.Pos.Raw).IsValid source :=
      String.Pos.Raw.isValid_rawEndPos
    exact ⟨Nat.le_refl _, Nat.le_refl _, hend, hend⟩
  · have hb' := (within_of_mem_spans hb).2
    refine ⟨hlt.le, ?_, ?_, ?_⟩
    · rw [hstop]
      exact hb'.inside
    · rw [hstart]
      exact (within_of_mem_spans ha).2.start_boundary
    · rw [hstop]
      exact hb'.stop_boundary

/-! ### Lines and columns -/

/-- The characters before a boundary are found by counting the bytes of each. -/
theorem charsBefore?_append (before rest : List Char) :
    charsBefore? (before ++ rest) (byteLength before) = some before := by
  induction before with
  | nil =>
    show charsBefore? rest 0 = some []
    unfold charsBefore?
    rfl
  | cons c before ih =>
    have hlength : byteLength (c :: before) = c.utf8Size + byteLength before := rfl
    obtain ⟨n, hn⟩ : ∃ n, byteLength (c :: before) = n + 1 :=
      Nat.exists_eq_add_one.mpr (byteLength_pos (List.cons_ne_nil c before))
    have hfits : ¬ n + 1 < c.utf8Size := by omega
    have hrest : n + 1 - c.utf8Size = byteLength before := by omega
    rw [hn, List.cons_append, charsBefore?, if_neg hfits, hrest, ih]
    rfl

/-- A place between characters has a line and a column. -/
theorem exists_position {offset : Nat} (h : (⟨offset⟩ : String.Pos.Raw).IsValid source) :
    ∃ p, position? source offset = some p := by
  obtain ⟨before, rest, rfl, hoffset⟩ := String.Pos.Raw.isValid_iff_exists_append.mp h
  have hlength : offset = byteLength before.toList := by
    rw [byteLength_toList]
    exact congrArg String.Pos.Raw.byteIdx hoffset
  refine ⟨Position.after before.toList, ?_⟩
  rw [position?, hlength, String.toList_append, charsBefore?_append]
  rfl

/-- The line of a report shows its line and column. -/
theorem diagnosticLine_of_position {d : Diagnostic} {p : Position}
    (h : position? source d.span.start = some p) (path : String) :
    Command.diagnosticLine path source d
      = s!"stencilc: {path}:{p.line}:{p.column}: {d.text}\n" := by
  unfold Command.diagnosticLine
  rw [h]
  rfl

/-! ## Reports -/

/-- What was found instead of what was expected is one of the tokens. -/
theorem found_mem_of_error {length : Nat} {xs : List Lexeme} {e : SyntaxError}
    (h : parse length xs = .error e) : ∀ x ∈ e.found, x ∈ xs := by
  obtain ⟨r, _, rfl, _⟩ := record_of_error h
  intro x hx
  exact List.mem_of_getElem? hx

/-- A parse error is shown at the token that was not expected, or at the end of the text if there is
    none. -/
theorem placed_parseText : ∀ f ∈ (parseText source).findings, f.Placed (·.Shown source) := by
  have hstrays : ∀ f ∈ (scan source).strays.map fun s => (⟨.stray s, s.span⟩ : Finding),
      f.Placed (·.Shown source) := by
    refine List.forall_mem_map.mpr ?_
    intro s hs
    exact .plain (shown_of_mem_spans (mem_spans_of_stray hs)) rfl
  cases hparse : parse source.utf8ByteSize (scan source).lexemes with
  | ok program =>
    rw [parseText_of_ok hparse]
    exact hstrays
  | error e =>
    rw [parseText_of_error hparse]
    refine List.forall_mem_append.mpr ⟨hstrays, List.forall_mem_singleton.mpr (.plain ?_ rfl)⟩
    show (e.span source.utf8ByteSize).Shown source
    unfold SyntaxError.span
    cases hfound : e.found with
    | none => exact Or.inl rfl
    | some x =>
      exact shown_of_mem_spans (mem_spans_of_lexeme (found_mem_of_error hparse x hfound))

/-- **Every finding of the front end can be shown**, whichever of its stages has made it. -/
theorem placed_compileSource (elementBytes : Option Nat) (log : Option Sink) :
    ∀ f ∈ (compileSource source elementBytes log).findings, f.Placed (·.Shown source) := by
  by_cases hwrong : (scan source).strays ≠ [] ∨ ¬ IsProgram (scan source).lexemes
  · rw [compileSource_of_findings (findings_parseText_ne_nil hwrong)]
    exact placed_parseText
  · obtain ⟨hstrays, hprogram⟩ := not_or.mp hwrong
    obtain ⟨p, hp⟩ := not_not.mp hprogram
    have hparse : parse source.utf8ByteSize (scan source).lexemes
        = .ok (p.tree source.utf8ByteSize) := by rw [← hp, parse_lexemes]
    rw [compileSource_of_program (not_not.mp hstrays) hparse]
    have hplaced : (p.tree source.utf8ByteSize).Placed (·.Shown source) :=
      p.placed_tree _ (fun _ h => shown_of_joins (hp ▸ h)) (Or.inl rfl)
    exact placed_override (Program.placed_elaborate hplaced log).findings hplaced.whole elementBytes

/-- **Every report can be shown.** Whatever the text and the options are, the spans of a report lie in
    the text, from one boundary of characters to another, so that the line that the command prints for
    it has a line number and a column. A span is empty only at the end of the text; any other one starts
    where a token or a stray character starts and ends where one ends. -/
theorem diagnostics_placed (source : String) (options : CompileOptions) (log : Option Sink) :
    ∀ d ∈ (compileSource source options.elementBytes log).diagnostics,
      (∃ p, position? source d.span.start = some p
        ∧ ∀ path, Command.diagnosticLine path source d
            = s!"stencilc: {path}:{p.line}:{p.column}: {d.text}\n")
      ∧ ∀ span ∈ d.span :: d.related.map Related.span,
          span.Within source
          ∧ (span.start = span.stop → span = ⟨source.utf8ByteSize, source.utf8ByteSize⟩)
          ∧ (span.start ≠ span.stop → ∃ a ∈ (scan source).spans, ∃ b ∈ (scan source).spans,
              span.start = a.start ∧ span.stop = b.stop) := by
  intro d hd
  obtain ⟨f, hf, rfl⟩ := List.mem_map.mp hd
  have hplaced := placed_compileSource options.elementBytes log f hf
  constructor
  · obtain ⟨p, hp⟩ := exists_position hplaced.span.within.start_boundary
    exact ⟨p, hp, fun path => diagnosticLine_of_position hp path⟩
  · have hshown : ∀ span ∈ f.diagnostic.span :: f.diagnostic.related.map Related.span,
        span.Shown source :=
      List.forall_mem_cons.mpr ⟨hplaced.span, List.forall_mem_map.mpr hplaced.related⟩
    intro span hspan
    refine ⟨(hshown span hspan).within, ?_, ?_⟩
    · intro hempty
      rcases hshown span hspan with heq | ⟨hlt, _⟩
      · exact heq
      · exact absurd hempty hlt.ne
    · intro hne
      rcases hshown span hspan with rfl | ⟨_, hmarks⟩
      · exact absurd rfl hne
      · exact hmarks

/-- A second name, after a comment with a character of two bytes: the report and the place of the
    first name. -/
theorem diagnostics_placed_secondName :
    ∃ d, (compileSource "# é\nsolution a; solution b;" (some 3) none).diagnostics = [d]
      ∧ d.span :: d.related.map Related.span = [⟨26, 27⟩, ⟨14, 15⟩]
      ∧ (∃ p, position? "# é\nsolution a; solution b;" 26 = some p)
      ∧ ∀ span ∈ [(⟨26, 27⟩ : Span), ⟨14, 15⟩], span.Within "# é\nsolution a; solution b;" := by
  have hnames : (compileSource "# é\nsolution a; solution b;" (some 3) none).diagnostics
      = [⟨.error, some "E0101", ⟨26, 27⟩, "duplicate solution name 'b'", none,
          [⟨⟨14, 15⟩, "first named here"⟩]⟩] := by decide +kernel
  refine ⟨_, hnames, rfl, ?_⟩
  obtain ⟨⟨p, hp, _⟩, hspans⟩ := diagnostics_placed "# é\nsolution a; solution b;" ⟨some 3, true⟩ none
    _ (hnames ▸ List.mem_singleton_self _)
  exact ⟨⟨p, hp⟩, fun span hspan => (hspans span hspan).1⟩

end Stencil.Source
