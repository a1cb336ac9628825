import Mathlib
import Stencil.Proofs.Offsets
import Stencil.Proofs.Respacing

/-!
# Spans nest

Every node of a program stands for a stretch of the text, from the start of a token to the end of
one. The stretches nest like the nodes: a node's parts lie in its stretch, apart from each other and
in the order of the text (`spans_nest`).

A node's span joins tokens of its derivation, and the tokens are in order. So the spans of parts
that are derived one after the other are in order (`before_of_joins`), and a span from the first
token to the last one holds all of them (`inside_of_joins`). An operator's span is stitched from
those of its operands, which may stand in parentheses; `Part.Nested` says what the repetitions need
of the operand that stands before them.

Everything is said of derivations. The program that is parsed is the tree of one, whose tokens are
those of the text, and so it is enough to know which tokens each part of a derivation has.

Parentheses are why this takes more than a look at the grammar: they belong to no node. The span of
an operation in parentheses is that of the operation, and the span of a larger one around it starts
inside the parentheses.
-/

namespace Stencil.Source

/-! ## Nested nodes -/

/-- The span takes room, from where a token of the text starts to where one ends. -/
def Span.Framed (span : Span) (source : String) : Prop :=
  span.start < span.stop
    ∧ (∃ x ∈ (scan source).lexemes, span.start = x.span.start)
    ∧ ∃ y ∈ (scan source).lexemes, span.stop = y.span.stop

/-- One span ends before the other one starts. -/
def Span.Before (a b : Span) : Prop := a.stop ≤ b.start

/-- The parts lie in the whole, apart from each other and in order. -/
structure Span.Parts (whole : Span) (parts : List Span) : Prop where
  inside : ∀ part ∈ parts, whole.start ≤ part.start ∧ part.stop ≤ whole.stop
  ordered : parts.Pairwise Span.Before

section Nested

variable (source : String)

structure Ident.Nested (n : Ident) : Prop where
  framed : n.span.Framed source
  slice : n.span.slice? source = some n.name

structure Index.Nested (i : Index) : Prop where
  framed : i.span.Framed source
  parts : i.span.Parts [i.dim.span]
  dim : i.dim.Nested source

structure Point.Nested (p : Point) : Prop where
  framed : p.span.Framed source
  parts : p.span.Parts (p.grid.span :: p.indices.map Index.span)
  grid : p.grid.Nested source
  indices : ∀ i ∈ p.indices, i.Nested source

end Nested

def Expr.Nested (source : String) : Expr → Prop
  | .number _ span => span.Framed source
  | .point p => p.Nested source
  | .neg operand span =>
    span.Framed source ∧ span.Parts [operand.span] ∧ operand.Nested source
  | .binary _ lhs rhs span =>
    span.Framed source ∧ span.Parts [lhs.span, rhs.span] ∧ lhs.Nested source ∧ rhs.Nested source

/-- The spans of what a clause is made of. -/
def Clause.parts : Clause → List Span
  | .solution name => [name.span]
  | .set name _ valueSpan => [name.span, valueSpan]
  | .step name => [name.span]
  | .domain names => names.map Ident.span
  | .grid name dims => name.span :: dims.map Ident.span
  | .equation lhs rhs => [lhs.span, rhs.span]

def Clause.Nested (source : String) : Clause → Prop
  | .solution name => name.Nested source
  | .set name _ valueSpan => name.Nested source ∧ valueSpan.Framed source
  | .step name => name.Nested source
  | .domain names => ∀ n ∈ names, n.Nested source
  | .grid name dims => name.Nested source ∧ ∀ n ∈ dims, n.Nested source
  | .equation lhs rhs => lhs.Nested source ∧ rhs.Nested source

structure Statement.Nested (source : String) (s : Statement) : Prop where
  framed : s.span.Framed source
  parts : s.span.Parts s.clause.parts
  clause : s.clause.Nested source

/-- A program may be empty, and then its span is; all else takes room. -/
structure Program.Nested (source : String) (p : Program) : Prop where
  parts : p.span.Parts (p.statements.map Statement.span)
  statements : ∀ s ∈ p.statements, s.Nested source

/-! ## Spans that join tokens of a text -/

/-- From the start of what joins some tokens to the end of what joins later ones. -/
theorem Span.Joins.join {a b : Span} {xs ys : List Lexeme} (ha : a.Joins xs) (hb : b.Joins ys) :
    Span.Joins ⟨a.start, b.stop⟩ (xs ++ ys) := by
  obtain ⟨x, hx, _, _, rfl, _⟩ := ha
  obtain ⟨_, _, y, hy, rfl, _⟩ := hb
  refine ⟨x, List.mem_append_left _ hx, y, List.mem_append_right _ hy, rfl, Or.inr ?_⟩
  exact (List.singleton_sublist.mpr hx).append (List.singleton_sublist.mpr hy)

/-- Two parts that lie one after the other, and start and end with the whole. -/
theorem Span.Parts.pair {a b whole : Span} (ha : a.start < a.stop) (hb : b.start < b.stop)
    (hab : a.Before b) (hstart : whole.start = a.start) (hstop : whole.stop = b.stop) :
    whole.Parts [a, b] := by
  unfold Span.Before at hab
  refine ⟨?_, List.pairwise_pair.mpr hab⟩
  intro part hpart
  rcases List.mem_pair.mp hpart with rfl | rfl <;> omega

section Joins

variable {source : String} {xs ys : List Lexeme} {a b : Span}

/-- What joins tokens of a text starts where one of its tokens starts and ends where one ends. -/
theorem framed_of_joins (h : a.Joins (scan source).lexemes) : a.Framed source := by
  have hlt := start_lt_stop_of_joins h
  obtain ⟨x, hx, y, hy, rfl, _⟩ := h
  exact ⟨hlt, ⟨x, hx, rfl⟩, y, hy, rfl⟩

/-- What joins tokens comes before what joins later ones. -/
theorem before_of_joins (h : (xs ++ ys).Sublist (scan source).lexemes) (ha : a.Joins xs)
    (hb : b.Joins ys) : a.Before b := by
  obtain ⟨_, _, x, hx, rfl, _⟩ := ha
  obtain ⟨y, hy, _, _, rfl, _⟩ := hb
  have hpair := List.pairwise_append.mp ((pairwise_lexemes source).sublist h)
  exact hpair.2.2 x hx y hy

/-- **Parts that are derived one after the other are in order.** -/
theorem ordered_of_joins {β : Type} {items : List β} {chunk : β → List Lexeme} {span : β → Span}
    (h : (items.flatMap chunk).Sublist (scan source).lexemes)
    (hspan : ∀ b ∈ items, (span b).Joins (chunk b)) : (items.map span).Pairwise Span.Before := by
  induction items with
  | nil => exact .nil
  | cons item items ih =>
    obtain ⟨hitem, hitems⟩ := List.forall_mem_cons.mp hspan
    rw [List.flatMap_cons] at h
    refine .cons (List.forall_mem_map.mpr ?_) (ih ((List.sublist_append_right _ _).trans h) hitems)
    intro later hlater
    have hchunk : (chunk later).Sublist (items.flatMap chunk) :=
      List.sublist_flatten_of_mem (List.mem_map_of_mem hlater)
    exact before_of_joins h hitem ((hitems later hlater).mono hchunk)

/-- **The span from the first token to the last one holds what joins tokens between them.** -/
theorem inside_of_joins {x y : Lexeme} (h : xs.Sublist (scan source).lexemes)
    (hhead : xs.head? = some x) (hlast : xs.getLast? = some y) (ha : a.Joins xs) :
    x.span.start ≤ a.start ∧ a.stop ≤ y.span.stop := by
  have hroom : ∀ z ∈ xs, z.span.start < z.span.stop := fun z hz =>
    (within_of_mem_spans (mem_spans_of_lexeme (h.subset hz))).1
  have hpair := (pairwise_lexemes source).sublist h
  obtain ⟨u, hu, v, hv, rfl, _⟩ := ha
  constructor
  · obtain ⟨rest, rfl⟩ := List.head?_eq_some_iff.mp hhead
    rcases List.mem_cons.mp hu with rfl | hmem
    · exact Nat.le_refl _
    · have hle := (List.pairwise_cons.mp hpair).1 u hmem
      exact ((hroom x List.mem_cons_self).le).trans hle
  · obtain ⟨front, rfl⟩ := List.getLast?_eq_some_iff.mp hlast
    rcases List.mem_append.mp hv with hmem | hmem
    · have hle := (List.pairwise_append.mp hpair).2.2 v hmem y (List.mem_singleton_self y)
      exact hle.trans (hroom y (List.mem_append_right _ (List.mem_singleton_self y))).le
    · rw [List.mem_singleton.mp hmem]

/-- **Parts of a phrase** lie in it, apart and in order, if they join tokens of it and come one
    after the other. -/
theorem parts_of_joins {x y : Lexeme} {parts : List Span} (h : xs.Sublist (scan source).lexemes)
    (hhead : xs.head? = some x) (hlast : xs.getLast? = some y)
    (hparts : ∀ part ∈ parts, part.Joins xs) (hordered : parts.Pairwise Span.Before) :
    Span.Parts ⟨x.span.start, y.span.stop⟩ parts :=
  ⟨fun part hpart => inside_of_joins h hhead hlast (hparts part hpart), hordered⟩

end Joins

/-! ## Nested derivations -/

namespace Grammar

/-- The items of a list without its commas. -/
theorem flatMap_items_sublist {α : Type} (f : α → List Lexeme) (o : Option (Separated α)) :
    ((listItems o).flatMap f).Sublist (listLexemes f o) := by
  cases o with
  | none => exact .refl _
  | some s =>
    obtain ⟨first, rest⟩ := s
    refine (List.Sublist.refl (f first)).append ?_
    induction rest with
    | nil => exact .refl _
    | cons item rest ih => exact ((List.Sublist.refl _).append ih).cons _

/-- What a phrase stands for is nested and joins the tokens of the phrase. A repetition adds its
    tokens to those that its left operand joins. -/
def Part.Nested (source : String) (ys : List Lexeme) : (part : Part) → part.Tree → Prop
  | .terms, t | .factors, t => ∀ (lhs : Expr) (xs : List Lexeme), lhs.Nested source →
      lhs.span.Joins xs → (xs ++ ys).Sublist (scan source).lexemes →
      (t lhs).Nested source ∧ (t lhs).span.Joins (xs ++ ys)
  | .expr, t | .product, t | .unary, t | .atom, t => ys.Sublist (scan source).lexemes →
      Expr.Nested source t ∧ (Expr.span t).Joins ys

section Derivations

variable {source : String}

theorem nested_ident {n : Ident} (h : n.lexeme ∈ (scan source).lexemes) : n.Nested source where
  framed := framed_of_joins (joins_of_mem h)
  slice := by
    obtain ⟨before, slice, rest, hcuts, hfits⟩ := cuts_of_mem_marks (mem_marks_of_lexeme h)
    have hname : slice = n.name.toList := Token.Fits.name_eq hfits
    have hslice : n.span.slice? source = some (String.ofList slice) := hcuts.slice?_eq
    rw [hslice, hname, String.ofList_toList]

theorem Index.nested_tree (i : Index) (h : i.lexemes.Sublist (scan source).lexemes) :
    i.tree.Nested source := by
  have hdim : i.dim.Nested source := nested_ident (h.subset List.mem_cons_self)
  have hwhole := framed_of_joins (i.joins_tree.mono h)
  obtain ⟨dim, offset⟩ := i
  cases offset with
  | none =>
    refine ⟨hwhole, ⟨List.forall_mem_singleton.mpr ⟨Nat.le_refl _, Nat.le_refl _⟩, ?_⟩, hdim⟩
    exact List.pairwise_singleton _ _
  | some o =>
    refine ⟨hwhole, ?_, hdim⟩
    refine parts_of_joins (y := o.number.lexeme) h rfl rfl ?_ (List.pairwise_singleton _ _)
    exact List.forall_mem_singleton.mpr (joins_of_mem (x := dim.lexeme) List.mem_cons_self)

/-- A point holds its grid's name and then its indices, in their order. -/
theorem Point.nested_tree (p : Point) (h : p.lexemes.Sublist (scan source).lexemes) :
    p.tree.Nested source := by
  have hlist : (listLexemes Index.lexemes p.indices).Sublist p.lexemes :=
    ((List.sublist_append_left _ _).cons _).cons _
  have hindices : ∀ i ∈ listItems p.indices, i.lexemes.Sublist p.lexemes :=
    fun i hi => (lexemes_sublist_of_mem_list hi).trans hlist
  have hgrid : p.grid.span.Joins [p.grid.lexeme] := joins_of_mem (x := p.grid.lexeme) (by simp)
  have hlast : p.lexemes.getLast? = some (Symbol.closeParen.lexeme p.closeSpan) := by
    rw [Point.lexemes, ← List.cons_append, ← List.cons_append, List.getLast?_concat]
  refine ⟨framed_of_joins (p.joins_tree.mono h), ?_,
    nested_ident (h.subset List.mem_cons_self), ?_⟩
  · show Span.Parts _ (p.grid.span :: ((listItems p.indices).map Index.tree).map Source.Index.span)
    rw [List.map_map]
    refine parts_of_joins h rfl hlast ?_ ?_
    · refine List.forall_mem_cons.mpr
        ⟨joins_of_mem (x := p.grid.lexeme) List.mem_cons_self, List.forall_mem_map.mpr ?_⟩
      intro i hi
      exact i.joins_tree.mono (hindices i hi)
    · -- the grid's name is one token, and the indices come after it
      refine .cons (List.forall_mem_map.mpr ?_)
        (ordered_of_joins (((flatMap_items_sublist _ _).trans hlist).trans h)
          fun i _ => i.joins_tree)
      intro i hi
      have hafter : ([p.grid.lexeme] ++ i.lexemes).Sublist p.lexemes :=
        ((((lexemes_sublist_of_mem_list hi).trans (List.sublist_append_left _ _)).cons
          _).cons_cons _)
      exact before_of_joins (hafter.trans h) hgrid i.joins_tree
  · refine List.forall_mem_map.mpr ?_
    intro i hi
    exact i.nested_tree ((hindices i hi).trans h)

/-- An operation holds its operands, the left one before the right one. -/
theorem nested_binary {lhs rhs : Expr} {xs ys : List Lexeme} {x : Lexeme} (op : Operator)
    (h : (xs ++ x :: ys).Sublist (scan source).lexemes)
    (hlhs : lhs.Nested source) (hlhsSpan : lhs.span.Joins xs)
    (hrhs : rhs.Nested source) (hrhsSpan : rhs.span.Joins ys) :
    (Expr.binary op lhs rhs ⟨lhs.span.start, rhs.span.stop⟩).Nested source
      ∧ Span.Joins ⟨lhs.span.start, rhs.span.stop⟩ (xs ++ x :: ys) := by
  have hskip : (xs ++ ys).Sublist (xs ++ x :: ys) :=
    (List.Sublist.refl xs).append (List.sublist_cons_self x ys)
  have hjoins := (hlhsSpan.join hrhsSpan).mono hskip
  have hbefore := before_of_joins (hskip.trans h) hlhsSpan hrhsSpan
  have hleft := start_lt_stop_of_joins
    (hlhsSpan.mono ((List.sublist_append_left _ _).trans (hskip.trans h)))
  have hright := start_lt_stop_of_joins
    (hrhsSpan.mono ((List.sublist_append_right _ _).trans (hskip.trans h)))
  exact ⟨⟨framed_of_joins (hjoins.mono h), .pair hleft hright hbefore rfl rfl, hlhs, hrhs⟩, hjoins⟩

/-- An operator and its right operand before the rest of a repetition: what the rest takes as its
    left operand joins all the tokens up to the end of this one. -/
theorem nested_operation (op : Operator) (x : Lexeme) {ys zs : List Lexeme} {rhs : Expr}
    {rest : Expr → Expr} (hrhs : Part.Nested source ys .unary rhs)
    (hrest : Part.Nested source zs .factors rest) :
    Part.Nested source (x :: (ys ++ zs)) .factors
      fun lhs => rest (.binary op lhs rhs ⟨lhs.span.start, rhs.span.stop⟩) := by
  intro lhs xs hlhs hlhsSpan h
  rw [← List.cons_append, ← List.append_assoc] at h ⊢
  have hfront := (List.sublist_append_left _ _).trans h
  have hoperand :=
    ((List.sublist_cons_self x ys).trans (List.sublist_append_right xs _)).trans hfront
  obtain ⟨hrhs, hrhsSpan⟩ := hrhs hoperand
  obtain ⟨hnode, hspan⟩ := nested_binary op hfront hlhs hlhsSpan hrhs hrhsSpan
  exact hrest _ _ hnode hspan h

/-- **Every expression nests**: by induction on the phrase, with the operands of a repetition
    gathered from the left. -/
theorem Phrase.nested_tree {part : Part} (d : Phrase part) :
    part.Nested source d.lexemes d.tree := by
  induction d with
  | expr first rest ihf ihr | product first rest ihf ihr =>
    intro h
    obtain ⟨hfirst, hspan⟩ := ihf ((List.sublist_append_left _ _).trans h)
    exact ihr _ _ hfirst hspan h
  | noTerms | noFactors =>
    intro lhs xs hlhs hspan _
    rw [Phrase.lexemes, List.append_nil]
    exact ⟨hlhs, hspan⟩
  | term sign span operand rest iho ihr => exact nested_operation sign.operator _ iho ihr
  | factor scale span operand rest iho ihr => exact nested_operation scale.operator _ iho ihr
  | plain operand ih => exact ih
  | minus span operand ih =>
    intro h
    obtain ⟨hoperand, hspan⟩ := ih ((List.sublist_cons_self _ _).trans h)
    have hsign : span.Joins [Symbol.minus.lexeme span] :=
      joins_of_mem (x := Symbol.minus.lexeme span) (List.mem_singleton_self _)
    have hjoins := hsign.join hspan
    have hbefore := before_of_joins h hsign hspan
    have hroom := start_lt_stop_of_joins (hsign.mono ((List.sublist_append_left _ _).trans h))
    have hinside : span.start ≤ operand.tree.span.start := hroom.le.trans hbefore
    refine ⟨⟨framed_of_joins (hjoins.mono h), ⟨?_, List.pairwise_singleton _ _⟩, hoperand⟩, hjoins⟩
    exact List.forall_mem_singleton.mpr ⟨hinside, Nat.le_refl _⟩
  | number n =>
    intro h
    have hjoins : n.span.Joins [n.lexeme] :=
      joins_of_mem (x := n.lexeme) (List.mem_singleton_self _)
    exact ⟨framed_of_joins (hjoins.mono h), hjoins⟩
  | point p =>
    intro h
    exact ⟨p.nested_tree h, p.joins_tree⟩
  | parens openSpan inner closeSpan ih =>
    intro h
    have hinner := (List.sublist_append_left inner.lexemes
      [Symbol.closeParen.lexeme closeSpan]).cons (Symbol.openParen.lexeme openSpan)
    obtain ⟨hnested, hspan⟩ := ih (hinner.trans h)
    exact ⟨hnested, hspan.mono hinner⟩

theorem Clause.joins_parts (c : Clause) (h : c.lexemes.Sublist (scan source).lexemes) :
    ∀ part ∈ c.tree.parts, part.Joins c.lexemes := by
  have hjoins : ∀ {x : Lexeme}, x ∈ c.lexemes → x.span.Joins c.lexemes := joins_of_mem
  cases c with
  | solution span name | step span name =>
    exact List.forall_mem_singleton.mpr (hjoins (x := name.lexeme) (by simp [lexemes]))
  | set span name equalsSpan value =>
    exact List.forall_mem_cons.mpr ⟨hjoins (x := name.lexeme) (by simp [lexemes]),
      List.forall_mem_singleton.mpr (hjoins (x := value.lexeme) (by simp [lexemes]))⟩
  | domain span names =>
    refine List.forall_mem_map.mpr ?_
    intro n hn
    have hmem : n.lexeme ∈ listLexemes (fun n => [n.lexeme]) (some names) := mem_listLexemes hn
    exact hjoins (x := n.lexeme) (List.mem_cons_of_mem _ hmem)
  | grid span name openSpan dims closeSpan =>
    refine List.forall_mem_cons.mpr ⟨hjoins (x := name.lexeme) (by simp [lexemes]),
      List.forall_mem_map.mpr ?_⟩
    intro n hn
    have hmem : n.lexeme ∈ listLexemes (fun n => [n.lexeme]) dims := mem_listLexemes hn
    exact hjoins (x := n.lexeme) (by simp [lexemes, hmem])
  | equation lhs equalsSpan rhs =>
    have hrhs : rhs.lexemes.Sublist (Clause.equation lhs equalsSpan rhs).lexemes :=
      (List.sublist_cons_self _ _).trans (List.sublist_append_right _ _)
    exact List.forall_mem_cons.mpr ⟨lhs.joins_tree.mono (List.sublist_append_left _ _),
      List.forall_mem_singleton.mpr ((rhs.nested_tree (hrhs.trans h)).2.mono hrhs)⟩

/-- The parts of a clause come in the order in which they are written. -/
theorem Clause.ordered_parts (c : Clause) (h : c.lexemes.Sublist (scan source).lexemes) :
    c.tree.parts.Pairwise Span.Before := by
  have hname : ∀ n : Ident, n.span.Joins [n.lexeme] :=
    fun n => joins_of_mem (x := n.lexeme) (List.mem_singleton_self _)
  cases c with
  | solution span name | step span name => exact List.pairwise_singleton _ _
  | set span name equalsSpan value =>
    have hvalue : value.span.Joins [value.lexeme] :=
      joins_of_mem (x := value.lexeme) (List.mem_singleton_self _)
    have hsub : ([name.lexeme] ++ [value.lexeme]).Sublist (scan source).lexemes :=
      ((((List.Sublist.refl _).cons (Symbol.equals.lexeme equalsSpan)).cons_cons _).cons _).trans h
    exact List.pairwise_pair.mpr (before_of_joins hsub (hname name) hvalue)
  | domain span names =>
    have hitems := (flatMap_items_sublist (fun n => [Ident.lexeme n]) (some names)).cons
      (Keyword.domain.lexeme span)
    exact ordered_of_joins (hitems.trans h) fun n _ => hname n
  | grid span name openSpan dims closeSpan =>
    have hitems : ((name :: listItems dims).flatMap fun n => [n.lexeme]).Sublist
        (Clause.grid span name openSpan dims closeSpan).lexemes :=
      ((((flatMap_items_sublist _ _).trans (List.sublist_append_left _ _)).cons _).cons_cons
        _).cons _
    exact ordered_of_joins (hitems.trans h) fun n _ => hname n
  | equation lhs equalsSpan rhs =>
    have hsides : (lhs.lexemes ++ rhs.lexemes).Sublist (scan source).lexemes :=
      ((List.Sublist.refl _).append (List.sublist_cons_self _ _)).trans h
    obtain ⟨_, hspan⟩ := rhs.nested_tree ((List.sublist_append_right _ _).trans hsides)
    exact List.pairwise_pair.mpr (before_of_joins hsides lhs.joins_tree hspan)

theorem Clause.nested_tree (c : Clause) (h : c.lexemes.Sublist (scan source).lexemes) :
    c.tree.Nested source := by
  cases c with
  | solution span name | step span name => exact nested_ident (h.subset (by simp [lexemes]))
  | set span name equalsSpan value =>
    have hvalue : value.lexeme ∈ (scan source).lexemes := h.subset (by simp [lexemes])
    exact ⟨nested_ident (h.subset (by simp [lexemes])), framed_of_joins (joins_of_mem hvalue)⟩
  | domain span names =>
    intro n hn
    have hmem : n.lexeme ∈ listLexemes (fun n => [n.lexeme]) (some names) := mem_listLexemes hn
    exact nested_ident (h.subset (List.mem_cons_of_mem _ hmem))
  | grid span name openSpan dims closeSpan =>
    refine ⟨nested_ident (h.subset (by simp [lexemes])), ?_⟩
    intro n hn
    have hmem : n.lexeme ∈ listLexemes (fun n => [n.lexeme]) dims := mem_listLexemes hn
    exact nested_ident (h.subset (by simp [lexemes, hmem]))
  | equation lhs equalsSpan rhs =>
    have hrhs := ((List.sublist_cons_self _ rhs.lexemes).trans
      (List.sublist_append_right _ _)).trans h
    exact ⟨lhs.nested_tree ((List.sublist_append_left _ _).trans h), (rhs.nested_tree hrhs).1⟩

theorem Statement.nested_tree (s : Statement) (h : s.lexemes.Sublist (scan source).lexemes) :
    s.tree.Nested source := by
  have hclause : s.clause.lexemes.Sublist s.lexemes := List.sublist_append_left _ _
  obtain ⟨x, xs, hx, hstart⟩ := s.lexemes_eq_cons
  have hhead : s.lexemes.head? = some x := by rw [hx]; rfl
  have hparts := parts_of_joins h hhead s.getLast?_lexemes
    (fun part hpart => (s.clause.joins_parts (hclause.trans h) part hpart).mono hclause)
    (s.clause.ordered_parts (hclause.trans h))
  rw [hstart] at hparts
  exact ⟨framed_of_joins (s.joins_tree.mono h), hparts, s.clause.nested_tree (hclause.trans h)⟩

/-- **A derivation of the tokens of a text stands for a nested program.** -/
theorem Program.nested_tree {p : Program} (hp : p.lexemes = (scan source).lexemes) (length : Nat) :
    (p.tree length).Nested source := by
  have hsub : p.lexemes.Sublist (scan source).lexemes := hp ▸ List.Sublist.refl _
  have hstatement : ∀ s ∈ p.statements, s.lexemes.Sublist p.lexemes :=
    fun s hs => List.sublist_flatten_of_mem (List.mem_map_of_mem hs)
  have hordered : ((p.tree length).statements.map Source.Statement.span).Pairwise Span.Before := by
    show ((p.statements.map Statement.tree).map Source.Statement.span).Pairwise Span.Before
    rw [List.map_map]
    exact ordered_of_joins (show (p.statements.flatMap Statement.lexemes).Sublist _ from hsub)
      fun s _ => s.joins_tree
  refine ⟨⟨?_, hordered⟩, List.forall_mem_map.mpr fun s hs =>
    s.nested_tree ((hstatement s hs).trans hsub)⟩
  refine List.forall_mem_map.mpr (List.forall_mem_map.mpr fun s hs => ?_)
  -- a program with a statement has a first and a last token, which are where it starts and stops
  obtain ⟨y, ys, hy, _⟩ := s.lexemes_eq_cons
  have hmem : y ∈ p.lexemes := (hstatement s hs).subset (hy ▸ List.mem_cons_self)
  have hne := List.ne_nil_of_mem hmem
  have hhead := List.head?_eq_some_head hne
  have hlast := List.getLast?_eq_some_getLast hne
  rw [← programSpan_lexemes, programSpan, hhead, hlast]
  exact inside_of_joins hsub hhead hlast (s.joins_tree.mono (hstatement s hs))

end Derivations

end Grammar

/-- **The spans of a program nest.** Whatever the text is, in its program every statement, name,
    index, point and expression takes room, from the start of a token to the end of one, and lies in
    what it is a part of; statements, the names of a list, the indices of a point, the sides of an
    equation and the operands of an operator stand apart and in the order of the text; and the
    characters at the span of a name are the name. -/
theorem spans_nest (source : String) (p : Program) (h : (parseText source).program? = some p) :
    p.Nested source := by
  obtain ⟨d, hd, rfl⟩ := Program.derivation_of_parseText h
  exact d.nested_tree hd _

/-- Operands in parentheses, a negation and two stray characters: the product starts at the first
    operand of the sum and stops before the parentheses that close the negation. -/
theorem spans_nest_parentheses :
    ∃ p lhs sum negation,
      (parseText "u(t + 1) = ((u(t) + 2)) @ * -(é(3 - c()));").program? = some p
        ∧ p.statements = [⟨.equation lhs (.binary .mul sum negation ⟨13, 40⟩), ⟨0, 43⟩⟩]
        ∧ p.Nested "u(t + 1) = ((u(t) + 2)) @ * -(é(3 - c()));"
        ∧ Span.Parts ⟨13, 40⟩ [sum.span, negation.span]
        ∧ sum.span = ⟨13, 21⟩ ∧ negation.span = ⟨28, 40⟩ := by
  have hprogram : (parseText "u(t + 1) = ((u(t) + 2)) @ * -(é(3 - c()));").program?
      = some ⟨[⟨.equation ⟨⟨"u", ⟨0, 1⟩⟩, [⟨⟨"t", ⟨2, 3⟩⟩, ⟨0x3ff0000000000000⟩, ⟨2, 7⟩⟩], ⟨0, 8⟩⟩
          (.binary .mul
            (.binary .add (.point ⟨⟨"u", ⟨13, 14⟩⟩, [⟨⟨"t", ⟨15, 16⟩⟩, .zero, ⟨15, 16⟩⟩], ⟨13, 17⟩⟩)
              (.number ⟨0x4000000000000000⟩ ⟨20, 21⟩) ⟨13, 21⟩)
            (.neg (.binary .sub (.number ⟨0x4008000000000000⟩ ⟨33, 34⟩)
              (.point ⟨⟨"c", ⟨37, 38⟩⟩, [], ⟨37, 40⟩⟩) ⟨33, 40⟩) ⟨28, 40⟩)
            ⟨13, 40⟩), ⟨0, 43⟩⟩], ⟨0, 43⟩⟩ := by decide +kernel
  have hnested := spans_nest _ _ hprogram
  obtain ⟨_, hrhs⟩ := (hnested.statements _ List.mem_cons_self).clause
  exact ⟨_, _, _, _, hprogram, rfl, hnested, hrhs.2.1, rfl, rfl⟩

end Stencil.Source
