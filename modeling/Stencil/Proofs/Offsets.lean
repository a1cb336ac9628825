import Mathlib
import Stencil.Proofs.Literals
import Stencil.Proofs.ReportPlaces
import Stencil.Proofs.WholeNumbers

/-!
# What written offsets become

An index `d+N` or `d-N` of a source text denotes a rational. On its way to a point the rational is
rounded twice over: its number is read as a double when the text is scanned, and the double must be
worth a 64-bit integer when the point is elaborated. So the offset of the point is the number
nearest to what is written, which is what is written only if a number is worth that, and the limits
beyond which an offset is reported are those of the rounded numbers (`offset_is_nearest`).

The statement is about a text and its derivation, so that *what is written* has a meaning of its
own: the characters at the place of the offset spell a numeral, and a numeral denotes a rational
(`Offset.Spells`, `Offset.rational`). From there the offset is followed forward, through the scanner
(`Offset.value_of_spells`), through the point it stands in (`mem_elaboratePoint_iff`,
`read_elaboratePoint`), and into the diagnostics.

The way back is needed as well: no diagnostic about an offset comes from anything but an offset of
the text. That is an invariant of elaboration (`Scope.Blames`), kept by every effect of a statement.

Integers of up to `2 ^ 53` in magnitude are doubles and arrive as they are written. Just below the
lower limit of 64 bits the rounding shows: the integer before the first one of 64 bits is taken for
it.
-/

namespace Stencil.Source

/-! ## Numbers of a text -/

/-- A stretch of a text is told by its span. -/
theorem Span.Cuts.unique {span : Span} {source : String} {before slice rest : List Char}
    {before' slice' rest' : List Char} (h : span.Cuts source before slice rest)
    (h' : span.Cuts source before' slice' rest') : slice = slice' := by
  -- fronts of one text that have the same length in bytes are equal
  have hfront : ∀ (a a' b b' : List Char), a ++ b = a' ++ b' → byteLength a = byteLength a' →
      a = a' ∧ b = b' := by
    intro a
    induction a with
    | nil =>
      intro a' b b' htext hlength
      cases a' with
      | nil => exact ⟨rfl, htext⟩
      | cons c a' =>
        have hpos := byteLength_pos (List.cons_ne_nil c a')
        exact absurd hlength hpos.ne
    | cons c a ih =>
      intro a' b b' htext hlength
      cases a' with
      | nil =>
        have hpos := byteLength_pos (List.cons_ne_nil c a)
        exact absurd hlength hpos.ne'
      | cons c' a' =>
        obtain ⟨rfl, htail⟩ := List.cons.inj htext
        obtain ⟨rfl, hrest⟩ := ih a' b b' htail (Nat.add_left_cancel hlength)
        exact ⟨rfl, hrest⟩
  obtain ⟨_, hafter⟩ := hfront _ _ _ _ (h.text.symm.trans h'.text) (h.start.symm.trans h'.start)
  have hlength : byteLength slice = byteLength slice' :=
    Nat.add_left_cancel (h.stop.symm.trans h'.stop)
  exact (hfront _ _ _ _ hafter hlength).1

/-- **A number of a text is what the numeral that it is cut from is read as.** -/
theorem numeral_of_mem_scan {source : String} {v : Double} {span : Span}
    (h : ⟨.number v, span⟩ ∈ (scan source).lexemes) :
    ∃ (n : Numeral) (before rest : List Char), n.Spelled ∧ span.Cuts source before n.text rest
      ∧ n.value.toDouble false = v := by
  obtain ⟨⟨p, span'⟩, hmem, hp⟩ := List.mem_filterMap.mp h
  cases p with
  | blank text => cases hp
  | stray c => cases hp
  | token t text =>
    obtain ⟨rfl, rfl⟩ := Lexeme.mk.inj (Option.some.inj hp)
    obtain ⟨before, rest, hcuts, _⟩ := cuts_of_mem_locate source.toList [] rfl hmem
    have hnumeral : ∀ v', Token.number v = .number v' →
        ∃ n : Numeral, n.Spelled ∧ n.text = text ∧ n.value.toDouble false = v' := by
      refine forall_mem_pieces (P := fun t text => ∀ v', t = .number v' →
        ∃ n : Numeral, n.Spelled ∧ n.text = text ∧ n.value.toDouble false = v') ?_ (mem_of_mem_locate hmem)
      rintro c cs t text hfirst v' rfl
      obtain ⟨n, _, htake, htext, hvalue⟩ := numeral_of_firstPiece hfirst
      exact ⟨n, Numeral.take_spelled htake, htext, hvalue⟩
    obtain ⟨n, hspelled, rfl, hvalue⟩ := hnumeral v rfl
    exact ⟨n, before, rest, hspelled, hcuts, hvalue⟩

/-! ## Points of a program -/

/-- The points of a clause, from left to right. -/
def Clause.points : Clause → List Point
  | .equation lhs rhs => lhs :: rhs.points
  | _ => []

/-- The points of a program, in the order of the text. -/
def Program.points (p : Program) : List Point := p.statements.flatMap fun stmt => stmt.clause.points

namespace Grammar

def Sign.isMinus : Sign → Bool
  | plus => false
  | minus => true

namespace Offset

/-- The number of the offset is written as the numeral. -/
def Spells (source : String) (o : Offset) (n : Numeral) : Prop :=
  n.Spelled ∧ ∃ before rest, o.number.span.Cuts source before n.text rest

/-- What the offset denotes where its number is written as the numeral. -/
def rational (o : Offset) (n : Numeral) : ℚ := signed o.sign.isMinus n.value.rational

end Offset

/-- The points of a phrase, from left to right. -/
def Phrase.points {part : Part} : Phrase part → List Point
  | expr first rest => first.points ++ rest.points
  | noTerms => []
  | term _ _ operand rest => operand.points ++ rest.points
  | product first rest => first.points ++ rest.points
  | noFactors => []
  | factor _ _ operand rest => operand.points ++ rest.points
  | plain operand => operand.points
  | minus _ operand => operand.points
  | number _ => []
  | point p => [p]
  | parens _ inner _ => inner.points

/-- The points of a clause, from left to right. -/
def Clause.points : Clause → List Point
  | .equation lhs _ rhs => lhs :: rhs.points
  | _ => []

/-- The points of a derivation, in the order of the text. -/
def Program.points (p : Program) : List Point := p.statements.flatMap fun stmt => stmt.clause.points

/-- What a phrase stands for has the points, after those of its left operand if it has one. -/
def Part.Has (ps : List Source.Point) : (part : Part) → part.Tree → Prop
  | .terms, t | .factors, t => ∀ lhs : Expr, (t lhs).points = lhs.points ++ ps
  | .expr, t | .product, t | .unary, t | .atom, t => Expr.points t = ps

/-- The points of an expression are those of its tree, in the same order. -/
theorem Phrase.points_tree {part : Part} (d : Phrase part) :
    part.Has (d.points.map Point.tree) d.tree := by
  induction d with
  | expr first rest ihf ihr | product first rest ihf ihr =>
    show Expr.points (rest.tree first.tree) = _
    rw [ihr first.tree, ihf, points, List.map_append]
  | noTerms | noFactors => exact fun lhs => (List.append_nil _).symm
  | term sign span operand rest iho ihr =>
    intro lhs
    show (rest.tree (.binary sign.operator lhs operand.tree _)).points = _
    rw [ihr, Expr.points, iho, points, List.map_append, List.append_assoc]
  | factor scale span operand rest iho ihr =>
    intro lhs
    show (rest.tree (.binary scale.operator lhs operand.tree _)).points = _
    rw [ihr, Expr.points, iho, points, List.map_append, List.append_assoc]
  | plain operand ih => exact ih
  | minus span operand ih => exact ih
  | number n => rfl
  | point p => rfl
  | parens openSpan inner closeSpan ih => exact ih

/-- **The points of a program are those of its derivation.** -/
theorem Program.points_tree (p : Program) (length : Nat) :
    (p.tree length).points = p.points.map Point.tree := by
  have hclause : ∀ c : Clause, c.tree.points = c.points.map Point.tree := by
    intro c
    cases c with
    | equation lhs span rhs => exact congrArg (lhs.tree :: ·) rhs.points_tree
    | solution | set | step | domain | grid => rfl
  show (p.statements.map Statement.tree).flatMap (fun stmt => stmt.clause.points) = _
  rw [points, List.map_flatMap, List.flatMap_map]
  exact List.flatMap_congr fun stmt _ => hclause stmt.clause

/-- The tokens of a point are among those of the phrase it stands in. -/
theorem Phrase.lexemes_sublist {part : Part} (d : Phrase part) {p : Point} (h : p ∈ d.points) :
    p.lexemes.Sublist d.lexemes := by
  induction d with
  | expr first rest ihf ihr | product first rest ihf ihr =>
    rcases List.mem_append.mp h with h | h
    · exact (ihf h).trans (List.sublist_append_left _ _)
    · exact (ihr h).trans (List.sublist_append_right _ _)
  | noTerms | noFactors | number n => exact absurd h List.not_mem_nil
  | term sign span operand rest iho ihr | factor scale span operand rest iho ihr =>
    apply List.Sublist.cons
    rcases List.mem_append.mp h with h | h
    · exact (iho h).trans (List.sublist_append_left _ _)
    · exact (ihr h).trans (List.sublist_append_right _ _)
  | plain operand ih => exact ih h
  | minus span operand ih => exact (ih h).cons _
  | point q =>
    rw [List.mem_singleton.mp h]
    exact List.Sublist.refl _
  | parens openSpan inner closeSpan ih =>
    exact ((ih h).trans (List.sublist_append_left _ _)).cons _

/-- The tokens of a point are tokens of the derivation. -/
theorem Program.lexemes_sublist {program : Program} {p : Point} (h : p ∈ program.points) :
    p.lexemes.Sublist program.lexemes := by
  obtain ⟨stmt, hstmt, hp⟩ := List.mem_flatMap.mp h
  have hclause : p.lexemes.Sublist stmt.clause.lexemes := by
    cases hc : stmt.clause with
    | equation lhs span rhs =>
      rw [hc] at hp
      rcases List.mem_cons.mp hp with rfl | hp
      · exact List.sublist_append_left _ _
      · exact ((rhs.lexemes_sublist hp).cons _).trans (List.sublist_append_right _ _)
    | solution | set | step | domain | grid =>
      rw [hc] at hp
      exact absurd hp List.not_mem_nil
  have hstatement : stmt.lexemes.Sublist program.lexemes :=
    List.sublist_flatten_of_mem (List.mem_map_of_mem hstmt)
  exact (hclause.trans (List.sublist_append_left _ _)).trans hstatement

/-- **An offset is the number that its numeral and its sign are read as.** -/
theorem Offset.value_of_spells {source : String} {program : Program}
    (h : program.lexemes = (scan source).lexemes) {p : Point} (hp : p ∈ program.points) {i : Index}
    (hi : i ∈ listItems p.indices) {o : Offset} (ho : i.offset = some o) :
    (∃ n, o.Spells source n)
      ∧ ∀ n, o.Spells source n → o.value = n.value.toDouble o.sign.isMinus := by
  have hmem : o.number.lexeme ∈ (scan source).lexemes := by
    rw [← h]
    apply (Program.lexemes_sublist hp).subset
    have hindex : o.number.lexeme ∈ i.lexemes := by simp [Index.lexemes, ho, Offset.lexemes]
    have hlist := (lexemes_sublist_of_mem_list hi).subset hindex
    exact List.mem_cons_of_mem _ (List.mem_cons_of_mem _ (List.mem_append_left _ hlist))
  obtain ⟨n, before, rest, hspelled, hcuts, hvalue⟩ := numeral_of_mem_scan hmem
  refine ⟨⟨n, hspelled, before, rest, hcuts⟩, ?_⟩
  rintro n' ⟨hspelled', before', rest', hcuts'⟩
  obtain rfl := hspelled.text_injective hspelled' (hcuts.unique hcuts')
  unfold Offset.value
  rw [← hvalue]
  cases o.sign with
  | plus => rfl
  | minus =>
    exact Double.neg_ofMagnitude false
      ((n.value.nearest_le_infinity .double).trans_lt Double.infinity_lt_signBit)

end Grammar

/-! ## Reported offsets -/

/-- The finding of an index whose offset cannot be used. -/
def Index.offsetFinding (i : Index) : Finding := ⟨.badOffset i.offset, i.span⟩

/-- The point names a grid of the solution, with as many indices as it has dimensions. -/
def Point.Counted (s : Solution) (p : Point) : Prop :=
  ∃ g, s.grid? p.grid.name = some g ∧ p.indices.length = g.dims.length

/-- A finding of an offset that cannot be used, in one of the indices. -/
def OfOffset (is : List Index) (f : Finding) : Prop :=
  ∃ i ∈ is, f = i.offsetFinding ∧ i.offset.toInt64?.isSome = false

/-- Only unusable offsets are reported with this code. -/
theorem Problem.code_eq_iff (p : Problem) : p.code = "E0133" ↔ ∃ v, p = .badOffset v := by
  have hmodel : ∀ e, modelCode e ≠ "E0133" := by
    intro e
    cases e <;> exact of_decide_eq_true rfl
  cases p <;> simp [code, hmodel]

variable {f : Finding} {v : Double}

/-- An index is reported for its offset exactly if the offset is no 64-bit integer, whatever else is
    wrong with it. -/
theorem mem_indexFindings_iff (hf : f.problem = .badOffset v) (g : Grid) (position : Nat)
    (i : Index) (d : Dim) :
    f ∈ indexFindings g position i d
      ↔ f = i.offsetFinding ∧ i.offset.toInt64?.isSome = false := by
  -- a name that is not the dimension's is another problem
  have hname : f ≠ ⟨.misnamedIndex position g d.name i.dim.name, i.dim.span⟩ := by
    rintro rfl
    cases hf
  unfold indexFindings Index.offsetFinding
  cases i.offset.toInt64? <;> by_cases hdim : i.dim.name = d.name <;> simp [hdim, hname]

/-- The offsets that are reported are those of single indices: each one is looked at by itself. -/
theorem mem_indicesFindings_iff (hf : f.problem = .badOffset v) (g : Grid) (is : List Index) :
    ∀ (position : Nat) (ds : List Dim), is.length = ds.length →
      (f ∈ indicesFindings g position is ds ↔ OfOffset is f) := by
  induction is with
  | nil =>
    intro position ds _
    simp [indicesFindings, OfOffset]
  | cons i is ih =>
    intro position ds hlen
    cases ds with
    | nil => exact absurd hlen (by simp)
    | cons d ds =>
      rw [indicesFindings, List.mem_append, mem_indexFindings_iff hf,
        ih (position + 1) ds (Nat.succ.inj hlen)]
      simp [OfOffset]

/-- **The offsets that are reported in a point** are those that are no 64-bit integers, if the point
    names a grid and has as many indices as it needs. -/
theorem mem_elaboratePoint_iff (hf : f.problem = .badOffset v) (s : Solution) (p : Point) :
    f ∈ (elaboratePoint s p).findings ↔ p.Counted s ∧ OfOffset p.indices f := by
  -- a report of another kind is not the one that is looked for
  have hother : ∀ {problem : Problem} {span : Span}, problem ≠ .badOffset v →
      f ∉ [⟨problem, span⟩] := by
    intro problem span hne hmem
    rw [List.mem_singleton.mp hmem] at hf
    exact hne hf
  unfold elaboratePoint Point.Counted
  cases hgrid : s.grid? p.grid.name with
  | none =>
    refine ⟨fun hmem => absurd hmem (hother (by simp)), ?_⟩
    rintro ⟨⟨g, hg, _⟩, _⟩
    cases hg
  | some g =>
    by_cases hlen : p.indices.length = g.dims.length
    · have hcounted : ∃ g', some g = some g' ∧ p.indices.length = g'.dims.length := ⟨g, rfl, hlen⟩
      simp only [if_pos hlen, hcounted, true_and]
      rw [← mem_indicesFindings_iff hf g p.indices 0 g.dims hlen, elaborateIndices]
      cases indicesFindings g 0 p.indices g.dims with
      | cons f' fs => rfl
      | nil =>
        refine ⟨fun hmem => ?_, fun hmem => absurd hmem List.not_mem_nil⟩
        dsimp only at hmem
        split at hmem
        · exact absurd hmem List.not_mem_nil
        · exact absurd hmem (hother (by simp))
    · simp only [if_neg hlen]
      refine ⟨fun hmem => absurd hmem (hother (by simp)), ?_⟩
      rintro ⟨⟨g', hg', hlen'⟩, _⟩
      obtain rfl := Option.some.inj hg'
      exact absurd hlen' hlen

/-- A point that is accepted is one of the grid of that name; its indices name the dimensions, and its
    offsets are the integers that they are worth. -/
theorem read_elaboratePoint {s : Solution} {p : Point} {q : Stencil.Point}
    (h : (elaboratePoint s p).value? = some q) :
    s.grid? p.grid.name = some q.grid ∧ p.indices.map (·.dim.name) = q.grid.dimNames
      ∧ List.Forall₂ (fun i o => i.offset.IsInt o.toInt) p.indices q.offsets := by
  unfold elaboratePoint at h
  cases hgrid : s.grid? p.grid.name with
  | none =>
    rw [hgrid] at h
    cases h
  | some g =>
    simp only [hgrid] at h
    by_cases hlen : p.indices.length = g.dims.length
    · rw [if_pos hlen] at h
      obtain ⟨rfl, hread⟩ := ((elaborateIndices_decides g p hlen).value q).mp h
      exact ⟨rfl, hread⟩
    · rw [if_neg hlen] at h
      cases h

theorem means_of_elaboratePoint {s : Solution} {p : Point} {q : Stencil.Point}
    (h : (elaboratePoint s p).value? = some q) : p.Means s.grids q := by
  obtain ⟨hgrid, hdims, hoffsets⟩ := read_elaboratePoint h
  exact ⟨List.mem_of_find?_eq_some hgrid, by simpa using List.find?_some hgrid, hdims, hoffsets⟩

/-- What is reported of offsets in an expression is reported of one of its points. -/
theorem mem_elaborateExpr (hf : f.problem = .badOffset v) {s : Solution} {e : Expr}
    (h : f ∈ (elaborateExpr s e).findings) : ∃ p ∈ e.points, OfOffset p.indices f := by
  induction e with
  | number v span => exact absurd h List.not_mem_nil
  | point p =>
    exact ⟨p, List.mem_singleton_self p, ((mem_elaboratePoint_iff hf s p).mp h).2⟩
  | binary op lhs rhs span ihl ihr =>
    rcases List.mem_append.mp h with h | h
    · obtain ⟨p, hp, hoffset⟩ := ihl h
      exact ⟨p, List.mem_append_left _ hp, hoffset⟩
    · obtain ⟨p, hp, hoffset⟩ := ihr h
      exact ⟨p, List.mem_append_right _ hp, hoffset⟩
  | neg operand span ih =>
    -- a negated number is a case of its own
    cases operand with
    | number v span => exact absurd h List.not_mem_nil
    | point | neg | binary => exact ih h

/-! ### Reports of a program -/

/-- The offsets that were reported are among those of the points. -/
def Scope.Blames (ps : List Point) (σ : Scope) : Prop :=
  ∀ f ∈ σ.findings, ∀ v, f.problem = .badOffset v → ∃ p ∈ ps, OfOffset p.indices f

namespace Scope

variable {ps : List Point} {σ σ' : Scope} {span : Span}

theorem Blames.report (hσ : σ.Blames ps) {fs : List Finding}
    (hfs : ∀ f ∈ fs, ∀ v, f.problem = .badOffset v → ∃ p ∈ ps, OfOffset p.indices f) :
    (σ.report fs).Blames ps :=
  List.forall_mem_append.mpr ⟨hσ, hfs⟩

/-- Findings of other problems blame no offset. -/
theorem Blames.report_other (hσ : σ.Blames ps) {fs : List Finding}
    (hfs : ∀ f ∈ fs, ∀ v, f.problem ≠ .badOffset v) : (σ.report fs).Blames ps :=
  hσ.report fun f hmem v hf => absurd hf (hfs f hmem v)

theorem Blames.declares (hσ : σ.Blames ps) {id : Ident} {kind : DimKind}
    (hdecl : σ.Declares id kind σ') : σ'.Blames ps := by
  cases hdecl with
  | entered _ => exact hσ
  | repeated _ => exact hσ.report_other (by simp)

/-- What is found in the sides of an equation blames offsets of their points. -/
theorem Blames.report_sides (hσ : σ.Blames ps) {lhs : Point} {rhs : Expr}
    (hps : lhs :: rhs.points ⊆ ps) :
    (σ.report (sides σ.draft.solution lhs rhs).findings).Blames ps := by
  apply hσ.report
  intro f hmem v hf
  rcases List.mem_append.mp hmem with hmem | hmem
  · exact ⟨lhs, hps List.mem_cons_self, ((mem_elaboratePoint_iff hf _ lhs).mp hmem).2⟩
  · obtain ⟨p, hp, hoffset⟩ := mem_elaborateExpr hf hmem
    exact ⟨p, hps (List.mem_cons_of_mem _ hp), hoffset⟩

/-- **A statement reports offsets of its own points only.** -/
theorem Blames.effect {clause : Clause} (hσ : σ.Blames ps) (hps : clause.points ⊆ ps)
    (heffect : Effect span σ clause σ') : σ'.Blames ps := by
  induction heffect with
  | named | widthSet | domainNone | grid => exact hσ
  | widthUnsupported | settingUnknown | stepSecond | gridRefused => exact hσ.report_other (by simp)
  | step _ hdecl => exact hσ.declares hdecl
  | domain hdecl _ ih => exact ih (hσ.declares hdecl) (List.nil_subset _)
  | dimsUnknown => exact hσ.report_other (List.forall_mem_map.mpr (by simp))
  | sidesUnread | equation => exact hσ.report_sides hps
  | equationRefused => exact (hσ.report_sides hps).report_other (by simp)

/-- **The run**: whatever the statements of a program report of offsets blames one of the program's
    points. -/
theorem Blames.statements (stmts : List Statement)
    (hps : ∀ stmt ∈ stmts, stmt.clause.points ⊆ ps) (hσ : σ.Blames ps) :
    (stmts.foldl Scope.statement σ).Blames ps := by
  apply statements_induct (P := Scope.Blames ps)
  · intro σ stmt hstmt hσ
    exact hσ.effect (hps stmt hstmt) (effect_statement σ stmt)
  · exact hσ

end Scope

/-- **Elaboration reports offsets of the program's points only.** -/
theorem Program.blames_elaborate (p : Program) (log : Option Sink) :
    (p.elaborate log).Blames p.points := by
  apply Scope.Blames.statements
  · intro stmt hstmt q hq
    exact List.mem_flatMap.mpr ⟨stmt, hstmt, hq⟩
  · -- nothing is reported before the statements but how the solution is named
    have hheader : ∀ f ∈ p.header.2, ∀ v, f.problem ≠ .badOffset v := by
      unfold header
      cases p.solutionNames with
      | nil => simp
      | cons first others => simp
    exact fun f hmem v hf => absurd hf (hheader f hmem v)

/-- **The front end reports offsets of the text's points only.** -/
theorem blames_compileSource {source : String} {program : Grammar.Program}
    (h : program.lexemes = (scan source).lexemes) (elementBytes : Option Nat) (log : Option Sink)
    (hmem : f ∈ (compileSource source elementBytes log).findings) (hf : f.problem = .badOffset v) :
    ∃ p ∈ program.points, OfOffset p.tree.indices f := by
  have hparse : parse source.utf8ByteSize (scan source).lexemes
      = .ok (program.tree source.utf8ByteSize) := by rw [← h, parse_lexemes]
  by_cases hstrays : (scan source).strays = []
  · have helaborate := (program.tree source.utf8ByteSize).blames_elaborate log
    rw [compileSource_of_program hstrays hparse] at hmem
    have hmem : f ∈ ((program.tree source.utf8ByteSize).elaborate log).findings := by
      -- an override adds one report at most, and of another kind
      unfold Outcome.override at hmem
      split at hmem
      · split at hmem
        · exact hmem
        · rcases List.mem_append.mp hmem with hmem | hmem
          · exact hmem
          · rw [List.mem_singleton.mp hmem] at hf
            cases hf
      · exact hmem
    obtain ⟨p, hp, hoffset⟩ := helaborate f hmem v hf
    rw [program.points_tree] at hp
    obtain ⟨q, hq, rfl⟩ := List.mem_map.mp hp
    exact ⟨q, hq, hoffset⟩
  · -- only the stray characters are reported
    rw [compileSource_of_findings (findings_parseText_ne_nil (Or.inl hstrays)),
      parseText_of_ok hparse] at hmem
    obtain ⟨stray, _, rfl⟩ := List.mem_map.mp hmem
    cases hf

/-! ## Written offsets -/

open Grammar

/-- The number that an offset is read as is a 64-bit integer. -/
def Grammar.Offset.Usable (o : Offset) : Prop := ∃ m : Int64, o.value.IsInt m.toInt

/-- An offset can be used exactly if its double is worth a 64-bit integer. -/
theorem Grammar.Offset.usable_iff (o : Offset) : o.Usable ↔ o.value.toInt64?.isSome = true := by
  rw [Option.isSome_iff_exists]
  exact exists_congr fun m => (Double.toInt64?_eq_some_iff o.value m).symm

theorem Grammar.Index.tree_offset {i : Grammar.Index} {o : Offset} (h : i.offset = some o) :
    i.tree.offset = o.value := by
  unfold Index.tree
  rw [h]

section Written

variable {s : Solution} {p : Grammar.Point} {i : Grammar.Index} {o : Offset}

/-- **An offset is reported exactly if it cannot be used**, in a point whose grid and whose number
    of indices are right. -/
theorem offset_reported_iff (hi : i ∈ listItems p.indices) (ho : i.offset = some o) :
    i.tree.offsetFinding ∈ (elaboratePoint s p.tree).findings ↔ p.tree.Counted s ∧ ¬ o.Usable := by
  have hoffset := Index.tree_offset ho
  have hsame : OfOffset p.tree.indices i.tree.offsetFinding ↔ ¬ o.Usable := by
    rw [o.usable_iff, ← hoffset, Bool.not_eq_true]
    constructor
    · rintro ⟨j, _, hfinding, hj⟩
      injection hfinding with hproblem _
      injection hproblem with hvalue
      rw [hvalue]
      exact hj
    · intro hnone
      exact ⟨i.tree, List.mem_map_of_mem hi, rfl, hnone⟩
  rw [mem_elaboratePoint_iff (v := i.tree.offset) rfl, hsame]

/-- **An offset that is accepted** is worth what its double is worth. -/
theorem offset_of_accepted {q : Stencil.Point} (h : (elaboratePoint s p.tree).value? = some q)
    {k : Nat} (hi : (listItems p.indices)[k]? = some i) (ho : i.offset = some o) :
    ∃ m : Int64, q.offsets[k]? = some m ∧ o.value.IsInt m.toInt := by
  have hindex : p.tree.indices[k]? = some i.tree := by
    show ((listItems p.indices).map Index.tree)[k]? = _
    rw [List.getElem?_map, hi]
    rfl
  obtain ⟨hlength, hall⟩ := List.forall₂_iff_get.mp ((read_elaboratePoint h).2.2)
  obtain ⟨hk, hget⟩ := List.getElem?_eq_some_iff.mp hindex
  refine ⟨q.offsets.get ⟨k, hlength ▸ hk⟩, List.getElem?_eq_getElem _, ?_⟩
  have hint := hall k hk (hlength ▸ hk)
  rw [List.get_eq_getElem, hget, Index.tree_offset ho] at hint
  exact hint

/-- An index without an offset is never reported. -/
theorem exists_offset_of_reported (h : i.tree.offset.toInt64?.isSome = false) :
    ∃ o, i.offset = some o ∧ ¬ o.Usable := by
  cases ho : i.offset with
  | none =>
    have hzero : i.tree.offset = .zero := by
      unfold Index.tree
      rw [ho]
    rw [hzero, (Double.toInt64?_eq_some_iff .zero 0).mpr Double.isInt_zero] at h
    cases h
  | some o =>
    refine ⟨o, rfl, ?_⟩
    rw [o.usable_iff, ← Index.tree_offset ho, h]
    exact Bool.false_ne_true

end Written

/-- **A written offset becomes the number nearest to it.** Let a point of a text have an index with an
    offset, whose number is written as some numeral, so that the offset denotes a rational.

    The offset is read as the number nearest to the rational, and can be used if that number is a 64-bit
    integer; of the integers these are the ones from `-2 ^ 63 - 1024` up to `2 ^ 63 - 513`. Whatever
    solution the point is looked up in, the offset is reported exactly if it cannot be used, where the
    point names a grid and has as many indices as it needs. A point that is accepted has the integer
    that is nearest to the rational. It is the rational itself exactly if a number is worth it, which
    holds of all integers up to `2 ^ 53`.

    No offset is reported that can be used. -/
theorem offset_is_nearest (source : String) (program : Grammar.Program)
    (h : program.lexemes = (scan source).lexemes) :
    (∀ p ∈ program.points, ∀ (k : Nat) (i : Grammar.Index) (o : Offset),
      (listItems p.indices)[k]? = some i → i.offset = some o →
      (∃ n, o.Spells source n) ∧ ∀ n, o.Spells source n →
        (o.value.isFinite = true → o.value.IsNearest (o.rational n))
        ∧ (∀ z : Int, o.rational n = z → (o.Usable ↔ -2 ^ 63 - 1024 ≤ z ∧ z < 2 ^ 63 - 512))
        ∧ ∀ s : Solution,
          (i.tree.offsetFinding ∈ (elaboratePoint s p.tree).findings ↔ p.tree.Counted s ∧ ¬ o.Usable)
          ∧ ∀ q, (elaboratePoint s p.tree).value? = some q →
              ∃ m : Int64, q.offsets[k]? = some m ∧ o.value.IsInt m.toInt
                ∧ ((m.toInt : ℚ) = o.rational n
                  ↔ ∃ x : Double, x.isFinite = true ∧ x.value = o.rational n)
                ∧ ∀ z : Int, o.rational n = z → z.natAbs ≤ 2 ^ 53 → m.toInt = z)
    ∧ ∀ elementBytes log, ∀ d ∈ (compileSource source elementBytes log).diagnostics,
        d.code = some "E0133" →
          ∃ p ∈ program.points, ∃ i ∈ listItems p.indices, ∃ o : Offset, i.offset = some o
            ∧ ¬ o.Usable ∧ d = i.tree.offsetFinding.diagnostic := by
  constructor
  · intro p hp k i o hi ho
    have hmem : i ∈ listItems p.indices := List.mem_of_getElem? hi
    obtain ⟨hspells, hvalue⟩ := Offset.value_of_spells h hp hmem ho
    refine ⟨hspells, ?_⟩
    intro n hn
    have hvalue := hvalue n hn
    have hnearest : o.value.isFinite = true → o.value.IsNearest (o.rational n) := by
      rw [hvalue]
      exact n.value.isNearest_toDouble o.sign.isMinus
    refine ⟨hnearest, ?_, fun s => ⟨?_, ?_⟩⟩
    · intro z hz
      rw [o.usable_iff, hvalue]
      exact Decimal.toInt64?_toDouble_isSome_iff hz
    · exact offset_reported_iff hmem ho
    · intro q hq
      obtain ⟨m, hm, hint⟩ := offset_of_accepted hq hi ho
      have hexact : (m.toInt : ℚ) = o.rational n
          ↔ ∃ x : Double, x.isFinite = true ∧ x.value = o.rational n := by
        rw [← hint.2]
        exact (hnearest hint.1).value_eq_iff hint.1
      refine ⟨m, hm, hint, hexact, ?_⟩
      intro z hz hsmall
      -- a small integer is worth some double, and then the nearest one is worth it
      obtain ⟨x, hfin, hx⟩ := Double.exists_isInt hsmall
      have hvalue := hexact.mpr ⟨x, hfin, hx.trans hz.symm⟩
      rw [hz] at hvalue
      exact_mod_cast hvalue
  · intro elementBytes log d hd hcode
    obtain ⟨f, hmem, rfl⟩ := List.mem_map.mp hd
    obtain ⟨v, hf⟩ := f.problem.code_eq_iff.mp (Option.some.inj hcode)
    obtain ⟨p, hp, j, hj, rfl, hnone⟩ := blames_compileSource h elementBytes log hmem hf
    obtain ⟨i, hi, rfl⟩ := List.mem_map.mp hj
    obtain ⟨o, ho, hunusable⟩ := exists_offset_of_reported hnone
    exact ⟨p, hp, i, hi, o, ho, hunusable, rfl⟩

/-- The numeral of a natural number, without a point or a power of ten. -/
def numeralOf (n : Nat) : Numeral := ⟨Nat.toDigits 10 n, [], none⟩

theorem spelled_numeralOf (n : Nat) : (numeralOf n).Spelled where
  nonempty := Or.inl Nat.toDigits_ne_nil
  whole := fun _ hc => isDigit_of_mem_toDigits hc
  fraction := List.forall_mem_nil _
  power := fun _ hp => by cases hp

theorem rational_numeralOf (n : Nat) : (numeralOf n).value.rational = n := by
  have hvalue : (numeralOf n).value = ⟨n, 0⟩ := by
    simp [numeralOf, Numeral.value, ofDigits_toDigits]
  rw [hvalue, Decimal.rational, zpow_zero, mul_one]

/-- `-9223372036854775809`, in the text `reef(lat-9223372036854775809)=1;`. -/
def Grammar.Offset.belowLimit : Offset := ⟨.minus, ⟨8, 9⟩, ⟨⟨0x43e0000000000000⟩, ⟨9, 28⟩⟩⟩

/-- `reef(lat-9223372036854775809)`. -/
def Grammar.Point.belowLimit : Grammar.Point :=
  ⟨⟨"reef", ⟨0, 4⟩⟩, ⟨4, 5⟩, some ⟨⟨⟨"lat", ⟨5, 8⟩⟩, some .belowLimit⟩, []⟩, ⟨28, 29⟩⟩

/-- `reef(lat-9223372036854775809)=1;`. -/
def Grammar.Program.belowLimit : Grammar.Program :=
  ⟨[⟨.equation .belowLimit ⟨29, 30⟩
      (.expr (.product (.plain (.number ⟨⟨0x3ff0000000000000⟩, ⟨30, 31⟩⟩)) .noFactors) .noTerms),
    ⟨31, 32⟩⟩]⟩

/-- The integer before the first one of 64 bits is taken for that one. -/
theorem offset_is_nearest_belowLimit :
    let s := ((Draft.new "shoal" none).after [.declareGrid "reef" [⟨"lat", .domain⟩]]).solution
    let n := numeralOf 9223372036854775809
    Offset.belowLimit.Spells "reef(lat-9223372036854775809)=1;" n
      ∧ Offset.belowLimit.rational n = -9223372036854775809 ∧ Offset.belowLimit.Usable
      ∧ ∃ q, (elaboratePoint s Grammar.Point.belowLimit.tree).value? = some q
        ∧ q.offsets = [-9223372036854775808]
        ∧ ∃ m : Int64, q.offsets[0]? = some m ∧ Offset.belowLimit.value.IsInt m.toInt := by
  intro s n
  obtain ⟨hall, _⟩ := offset_is_nearest "reef(lat-9223372036854775809)=1;" .belowLimit
    (by decide +kernel)
  obtain ⟨_, hread⟩ := hall .belowLimit List.mem_cons_self 0 _ .belowLimit rfl rfl
  have hspells : Offset.belowLimit.Spells "reef(lat-9223372036854775809)=1;" n :=
    ⟨spelled_numeralOf _, "reef(lat-".toList, ")=1;".toList,
      ⟨by decide +kernel, by decide +kernel, by decide +kernel⟩⟩
  have hrational : Offset.belowLimit.rational n = ((-9223372036854775809 : Int) : ℚ) := by
    show -(numeralOf _).value.rational = _
    rw [rational_numeralOf]
    norm_num
  obtain ⟨_, husable, hpoint⟩ := hread n hspells
  have hsome : (elaboratePoint s Grammar.Point.belowLimit.tree).value?.map Stencil.Point.offsets
      = some [-9223372036854775808] := by decide +kernel
  obtain ⟨q, hq, hoffsets⟩ := Option.map_eq_some_iff.mp hsome
  obtain ⟨m, hm, hint, _⟩ := (hpoint s).2 q hq
  refine ⟨hspells, by exact_mod_cast hrational, ?_, q, hq, hoffsets, m, hm, hint⟩
  exact (husable _ hrational).mpr (by decide)

/-- **Offsets that are not what is written.** An offset of `2 ^ 53 + 1` is taken for `2 ^ 53`, and the
    last integer of 64 bits is reported. -/
theorem offset_not_as_written :
    (numeralOf 9007199254740993).text = "9007199254740993".toList
    ∧ (numeralOf 9007199254740993).value.rational = 9007199254740993
    ∧ (compileSource "solution s; step t; domain x; grid u(t, x);
        u(t+1, x) = u(t, x+9007199254740993);" none none).solution?.map
          (fun s => s.equations.map fun e => e.rhs.points.map Stencil.Point.offsets)
        = some [[[0, 9007199254740992]]]
    ∧ (compileSource "solution s; step t; domain x; grid u(t, x);
        u(t+1, x) = u(t, x+9223372036854775807);" none none).diagnostics.map Diagnostic.code
        = [some "E0133"] := by
  refine ⟨by decide +kernel, ?_, by decide +kernel, by decide +kernel⟩
  exact_mod_cast rational_numeralOf 9007199254740993

end Stencil.Source
