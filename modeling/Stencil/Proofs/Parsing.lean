import Mathlib
import Stencil.Proofs.Prediction

/-!
# Parsing follows the grammar

The parser accepts exactly the tokens that have a derivation, and gives the tree of the derivation.
Since it gives what reading a token at a time gives (`parse_eq`), this is shown of the phases.

**Completeness** runs the phases over the tokens of a derivation: a phrase takes the phase before it
to the phase after it. **Soundness** goes the other way and by the length of what is left: where
reading succeeds from a phase, what is left starts with the tokens of a derivation for that phase,
and reading succeeds from the phase after it.

Completeness is an induction on derivations, with one lemma for each production
(`Grammar.Phrase.runs`, `Grammar.Clause.reads`, `parseFrom_statement`). It holds whatever follows,
so that the lemmas are put one after the other.

Soundness has no derivation to follow. Each lemma takes a successful run from a phase, looks at the
steps that the phase allows, and finds the derivation (`index_of_ok`, `expr_of_ok`,
`statement_of_ok`). For expressions two things have to be found at once, an operand and what follows
an operand, each of which may contain the other; both are carried through one induction on the
number of tokens (`follows`).

A list of names occurs in two statements, which differ in how it ends. It is read once
(`NamePhases.reads`, `NamePhases.of_ok`), with the end as a parameter.

Together the two directions say that parsing decides the grammar, and gives the tree of the one
derivation there is (`parse_eq_ok_iff_derivation`).
-/

namespace Stencil.Source

open Grammar (Sign Separated listItems listLexemes Part Phrase)

/-! ## Lists of names -/

/-- Phases that read `(',' ident)*`: `after` has names, `more` has names and a comma. -/
structure NamePhases (after more : List Ident → Phase)
    (Ends : List Ident → Lexeme → Move → Prop) : Prop where
  after_iff : ∀ ns x move, Step (after ns) x move ↔
    (∃ span, x = Symbol.comma.lexeme span ∧ move = .on (more ns)) ∨ Ends ns x move
  more_iff : ∀ ns x move, Step (more ns) x move ↔
    ∃ n : Ident, x = n.lexeme ∧ move = .on (after (ns ++ [n]))
  after_ne : ∀ ns, after ns ≠ .idle
  more_ne : ∀ ns, more ns ≠ .idle

/-- What ends the names of a `domain` statement. -/
def EndsDomain (start : Nat) (ns : List Ident) (x : Lexeme) (move : Move) : Prop :=
  ∃ span, x = Symbol.semicolon.lexeme span ∧ move = .done ⟨.domain ns, ⟨start, span.stop⟩⟩

/-- What ends the names of a `grid` statement. -/
def EndsGrid (start : Nat) (g : Ident) (ds : List Ident) (x : Lexeme) (move : Move) : Prop :=
  ∃ span, x = Symbol.closeParen.lexeme span ∧ move = .on (.closing start (.grid g ds))

theorem domainNames (start : Nat) :
    NamePhases (.domains start) (.domainsMore start) (EndsDomain start) where
  after_iff ns x move := by
    constructor
    · intro h
      cases h with
      | domainComma _ _ span => exact Or.inl ⟨span, rfl, rfl⟩
      | domainEnd _ _ span => exact Or.inr ⟨span, rfl, rfl⟩
    · rintro (⟨span, rfl, rfl⟩ | ⟨span, rfl, rfl⟩)
      · exact .domainComma start ns span
      · exact .domainEnd start ns span
  more_iff ns x move := by
    constructor
    · intro h
      cases h with
      | domainName _ _ n => exact ⟨n, rfl, rfl⟩
    · rintro ⟨n, rfl, rfl⟩
      exact .domainName start ns n
  after_ne _ := by simp
  more_ne _ := by simp

theorem gridNames (start : Nat) (g : Ident) :
    NamePhases (.gridDims start g) (.gridMore start g) (EndsGrid start g) where
  after_iff ds x move := by
    constructor
    · intro h
      cases h with
      | gridComma _ _ _ span => exact Or.inl ⟨span, rfl, rfl⟩
      | gridClose _ _ _ span => exact Or.inr ⟨span, rfl, rfl⟩
    · rintro (⟨span, rfl, rfl⟩ | ⟨span, rfl, rfl⟩)
      · exact .gridComma start g ds span
      · exact .gridClose start g ds span
  more_iff ds x move := by
    constructor
    · intro h
      cases h with
      | gridDim _ _ _ d => exact ⟨d, rfl, rfl⟩
    · rintro ⟨d, rfl, rfl⟩
      exact .gridDim start g ds d
  after_ne _ := by simp
  more_ne _ := by simp

section Names

variable {after more : List Ident → Phase} {Ends : List Ident → Lexeme → Move → Prop}

/-- The tokens of `(',' ident)*` add their names to a phase. -/
theorem NamePhases.reads (hphases : NamePhases after more Ends) (rest : List (Span × Ident)) :
    ∀ ns, Reads (after ns) (Separated.restLexemes (fun n => [n.lexeme]) rest)
      (after (ns ++ rest.map Prod.snd)) := by
  induction rest with
  | nil =>
    intro ns
    rw [List.map_nil, List.append_nil]
    exact .nil _
  | cons item rest ih =>
    intro ns
    have hcomma := (hphases.after_iff ns _ _).mpr (Or.inl ⟨item.1, rfl, rfl⟩)
    have hname := (hphases.more_iff ns _ _).mpr ⟨item.2, rfl, rfl⟩
    have hns : ns ++ (item :: rest).map Prod.snd = (ns ++ [item.2]) ++ rest.map Prod.snd := by simp
    rw [hns]
    exact .cons hcomma (.cons hname (ih _))

/-- Where the parser succeeds from a phase with names, more names follow, then what ends them. -/
theorem NamePhases.of_ok (hphases : NamePhases after more Ends) {done r : List Statement} :
    ∀ (k : Nat) (xs : List Lexeme), xs.length ≤ k → ∀ ns, parseFrom done (after ns) xs = .ok r →
      ∃ rest x ys move, xs = Separated.restLexemes (fun n => [n.lexeme]) rest ++ x :: ys
        ∧ Ends (ns ++ rest.map Prod.snd) x move ∧ resume done move ys = .ok r := by
  intro k
  induction k with
  | zero =>
    intro xs hlen ns h
    exact absurd (length_pos_of_ok (hphases.after_ne ns) h) (Nat.not_lt.mpr hlen)
  | succ k ih =>
    intro xs hlen ns h
    obtain ⟨x, ys, move, rfl, hstep, hrun⟩ := step_of_ok (hphases.after_ne ns) h
    rcases (hphases.after_iff ns x move).mp hstep with ⟨span, rfl, rfl⟩ | hends
    · obtain ⟨y, zs, move', rfl, hstep', hrun'⟩ := step_of_ok (hphases.more_ne ns) hrun
      obtain ⟨n, rfl, rfl⟩ := (hphases.more_iff ns y move').mp hstep'
      simp only [List.length_cons] at hlen
      obtain ⟨rest, x, ys, move, rfl, hends, hrun''⟩ := ih zs (by omega) _ hrun'
      refine ⟨(span, n) :: rest, x, ys, move, rfl, ?_, hrun''⟩
      simpa using hends
    · exact ⟨[], x, ys, move, rfl, by simpa using hends, hrun⟩

end Names

/-! ## Points -/

/-- An index without an offset stands for the dimension where it is. -/
theorem tree_bare (d : Ident) : (Grammar.Index.mk d none).tree = Index.bare d := rfl

/-- An index with an offset stands for the dimension, shifted by the signed number. -/
theorem tree_shifted (d : Ident) (sign : Sign) (span : Span) (v : Number) :
    (Grammar.Index.mk d (some ⟨sign, span, v⟩)).tree
      = Index.shifted d sign.negative v.value v.span.stop := by
  cases sign <;> rfl

section Points

variable {site : Site} {g : Ident} {done r : List Statement}

/-- What may follow an index: a comma or a parenthesis. -/
def Delimits (ys : List Lexeme) : Prop :=
  ∃ span zs, ys = Symbol.comma.lexeme span :: zs ∨ ys = Symbol.closeParen.lexeme span :: zs

/-- A dimension that a delimiter follows is an index. -/
theorem parseFrom_bare {ys : List Lexeme} (hys : Delimits ys) (is : List Index) (d : Ident) :
    parseFrom done (.point site g (.index is d)) ys
      = parseFrom done (.point site g (.indexed (is ++ [.bare d]))) ys := by
  obtain ⟨span, zs, rfl | rfl⟩ := hys
  · exact ((Step.indexComma site g is d span).parseFrom_eq done zs).trans
      ((Step.pointComma site g _ span).parseFrom_eq done zs).symm
  · exact ((Step.indexClose site g is d span).parseFrom_eq done zs).trans
      ((Step.pointClose site g _ span).parseFrom_eq done zs).symm

/-- An index and a delimiter, read from a phase that asks for an index. -/
theorem parseFrom_index {ys : List Lexeme} (hys : Delimits ys) (is : List Index)
    (i : Grammar.Index) :
    parseFrom done (.point site g (.separated is)) (i.lexemes ++ ys)
      = parseFrom done (.point site g (.indexed (is ++ [i.tree]))) ys := by
  obtain ⟨d, offset⟩ := i
  rw [Grammar.Index.lexemes, List.cons_append, (Step.pointDim site g is d).parseFrom_eq]
  cases offset with
  | none => exact parseFrom_bare hys is d
  | some o =>
    obtain ⟨sign, span, v⟩ := o
    rw [tree_shifted]
    exact (Reads.cons (.indexSign site g is d sign span)
      (.cons (.indexOffset site g is d sign.negative v) (.nil _))) done ys

/-- What follows an index in a list is a comma or the parenthesis. -/
theorem delimits_restLexemes (rest : List (Span × Grammar.Index)) (span : Span)
    (zs : List Lexeme) :
    Delimits (Separated.restLexemes Grammar.Index.lexemes rest
      ++ Symbol.closeParen.lexeme span :: zs) := by
  cases rest with
  | nil => exact ⟨span, zs, Or.inr rfl⟩
  | cons item rest => exact ⟨item.1, _, Or.inl rfl⟩

/-- The indices after the first ones, and the parenthesis. -/
theorem parseFrom_indices (span : Span) (zs : List Lexeme) (rest : List (Span × Grammar.Index)) :
    ∀ is, parseFrom done (.point site g (.indexed is))
        (Separated.restLexemes Grammar.Index.lexemes rest ++ Symbol.closeParen.lexeme span :: zs)
      = parseFrom done (closePoint site g (is ++ rest.map (·.2.tree)) span.stop) zs := by
  induction rest with
  | nil =>
    intro is
    rw [List.map_nil, List.append_nil]
    exact (Step.pointClose site g is span).parseFrom_eq done zs
  | cons item rest ih =>
    intro is
    obtain ⟨comma, i⟩ := item
    have his : is ++ ((comma, i) :: rest).map (·.2.tree)
        = (is ++ [i.tree]) ++ rest.map (·.2.tree) := by simp
    rw [his, ← ih, ← parseFrom_index (delimits_restLexemes rest span zs)]
    simp only [Separated.restLexemes, List.flatMap_cons, List.cons_append, List.append_assoc]
    exact (Step.pointComma site g is comma).parseFrom_eq done _

/-- **A point** takes a phase to the phase after the point. -/
theorem Reads.point {phase : Phase} (p : Grammar.Point)
    (h : Step phase p.grid.lexeme (.on (.point site p.grid .named))) :
    Reads phase p.lexemes (site.close p.tree) := by
  obtain ⟨g, openSpan, indices, closeSpan⟩ := p
  intro done rest
  simp only [Grammar.Point.lexemes, List.cons_append, List.append_assoc, List.nil_append]
  refine (h.parseFrom_eq done _).trans ?_
  refine ((Step.pointOpen site g openSpan).parseFrom_eq done _).trans ?_
  show parseFrom done (.point site g .opened) _ = _
  cases indices with
  | none => exact (Step.pointEmpty site g closeSpan).parseFrom_eq done rest
  | some s =>
    obtain ⟨i, more⟩ := s
    simp only [listLexemes, Separated.lexemes, List.append_assoc]
    -- the first index is read as one after a comma is
    calc parseFrom done (.point site g .opened) (i.lexemes ++ _)
        = parseFrom done (.point site g (.separated [])) (i.lexemes ++ _) :=
          ((Step.pointFirst site g i.dim).parseFrom_eq done _).trans
            ((Step.pointDim site g [] i.dim).parseFrom_eq done _).symm
      _ = parseFrom done (.point site g (.indexed [i.tree])) _ :=
          parseFrom_index (delimits_restLexemes more closeSpan rest) [] i
      _ = parseFrom done (closePoint site g (i.tree :: more.map (·.2.tree)) closeSpan.stop) rest :=
          parseFrom_indices closeSpan rest more [i.tree]
      _ = _ := by
          simp [closePoint, Grammar.Point.tree, listItems, Separated.items, Function.comp_def]

/-- Where the parser succeeds after a dimension, the rest of the index follows. -/
theorem index_of_ok {is : List Index} {d : Ident} {xs : List Lexeme}
    (h : parseFrom done (.point site g (.index is d)) xs = .ok r) :
    ∃ i : Grammar.Index, i.dim = d ∧ ∃ ys, d.lexeme :: xs = i.lexemes ++ ys
      ∧ parseFrom done (.point site g (.indexed (is ++ [i.tree]))) ys = .ok r := by
  obtain ⟨x, ys, move, rfl, hstep, hrun⟩ := step_of_ok (by simp) h
  cases hstep with
  | indexSign _ _ _ _ sign span =>
    obtain ⟨y, zs, move', rfl, hstep', hrun'⟩ := step_of_ok (by simp) hrun
    cases hstep' with
    | indexOffset _ _ _ _ _ v =>
      refine ⟨⟨d, some ⟨sign, span, v⟩⟩, rfl, zs, rfl, ?_⟩
      rw [tree_shifted]
      exact hrun'
  | indexComma _ _ _ _ span =>
    refine ⟨⟨d, none⟩, rfl, _, rfl, ?_⟩
    rw [tree_bare, ← parseFrom_bare ⟨span, ys, Or.inl rfl⟩]
    exact h
  | indexClose _ _ _ _ span =>
    refine ⟨⟨d, none⟩, rfl, _, rfl, ?_⟩
    rw [tree_bare, ← parseFrom_bare ⟨span, ys, Or.inr rfl⟩]
    exact h

/-- Where the parser succeeds after an index, more indices follow, and then the parenthesis. -/
theorem indices_of_ok : ∀ (k : Nat) (xs : List Lexeme), xs.length ≤ k → ∀ is : List Index,
    parseFrom done (.point site g (.indexed is)) xs = .ok r →
    ∃ rest span ys,
      xs = Separated.restLexemes Grammar.Index.lexemes rest ++ Symbol.closeParen.lexeme span :: ys
      ∧ parseFrom done (closePoint site g (is ++ rest.map (·.2.tree)) span.stop) ys = .ok r := by
  intro k
  induction k with
  | zero =>
    intro xs hlen is h
    exact absurd (length_pos_of_ok (by simp) h) (Nat.not_lt.mpr hlen)
  | succ k ih =>
    intro xs hlen is h
    obtain ⟨x, ys, move, rfl, hstep, hrun⟩ := step_of_ok (by simp) h
    cases hstep with
    | pointComma _ _ _ comma =>
      obtain ⟨y, zs, move', rfl, hstep', hrun'⟩ := step_of_ok (by simp) hrun
      cases hstep' with
      | pointDim _ _ _ d =>
        obtain ⟨i, rfl, ws, hws, hrun''⟩ := index_of_ok hrun'
        -- a comma and an index have been read, and each of them has a token
        have hle : ws.length ≤ k := by
          have hlength := congrArg List.length hws
          simp only [List.length_cons, List.length_append, Grammar.Index.lexemes] at hlength hlen
          omega
        obtain ⟨rest, span, vs, rfl, hend⟩ := ih ws hle _ hrun''
        refine ⟨(comma, i) :: rest, span, vs, ?_, ?_⟩
        · simp only [Separated.restLexemes, List.flatMap_cons, List.cons_append,
            List.append_assoc] at hws ⊢
          rw [hws]
        · simpa using hend
    | pointClose _ _ _ span =>
      refine ⟨[], span, ys, rfl, ?_⟩
      rw [List.map_nil, List.append_nil]
      exact hrun

/-- **Where the parser succeeds after the name of a grid, the rest of a point follows.** -/
theorem point_of_ok {xs : List Lexeme} (h : parseFrom done (.point site g .named) xs = .ok r) :
    ∃ p : Grammar.Point, p.grid = g ∧ ∃ ys, g.lexeme :: xs = p.lexemes ++ ys
      ∧ parseFrom done (site.close p.tree) ys = .ok r := by
  obtain ⟨x, ys, move, rfl, hstep, hrun⟩ := step_of_ok (by simp) h
  cases hstep with
  | pointOpen _ _ openSpan =>
    obtain ⟨y, zs, move', rfl, hstep', hrun'⟩ := step_of_ok (by simp) hrun
    cases hstep' with
    | pointEmpty _ _ closeSpan =>
      exact ⟨⟨g, openSpan, none, closeSpan⟩, rfl, zs, rfl, hrun'⟩
    | pointFirst _ _ d =>
      obtain ⟨i, rfl, ws, hws, hrun''⟩ := index_of_ok hrun'
      obtain ⟨rest, closeSpan, vs, rfl, hend⟩ := indices_of_ok _ ws (Nat.le_refl _) _ hrun''
      refine ⟨⟨g, openSpan, some ⟨i, rest⟩, closeSpan⟩, rfl, vs, ?_, ?_⟩
      · simp [Grammar.Point.lexemes, listLexemes, Separated.lexemes, hws]
      · simpa [closePoint, Grammar.Point.tree, listItems, Separated.items, Function.comp_def]
          using hend

end Points

/-! ## Expressions -/

/-- What a phrase of each part does to a phase. -/
def Grammar.Phrase.Runs : {part : Part} → Phrase part → Prop
  | .expr, d => ∀ lhs outer, ∃ sum v, complete sum v = d.tree ∧
      Reads (.operand ⟨lhs, .empty, outer⟩) d.lexemes (.operator ⟨lhs, ⟨sum, none, []⟩, outer⟩ v)
  | .terms, d => ∀ lhs sum outer v, ∃ sum' v', complete sum' v' = d.tree (complete sum v) ∧
      Reads (.operator ⟨lhs, ⟨sum, none, []⟩, outer⟩ v) d.lexemes
        (.operator ⟨lhs, ⟨sum', none, []⟩, outer⟩ v')
  | .product, d => ∀ lhs sum outer, Reads (.operand ⟨lhs, ⟨sum, none, []⟩, outer⟩) d.lexemes
      (.operator ⟨lhs, ⟨sum, none, []⟩, outer⟩ d.tree)
  | .factors, d => ∀ lhs sum outer v, Reads (.operator ⟨lhs, ⟨sum, none, []⟩, outer⟩ v) d.lexemes
      (.operator ⟨lhs, ⟨sum, none, []⟩, outer⟩ (d.tree v))
  | .unary, d => ∀ e, Reads (.operand e) d.lexemes (e.withOperand d.tree)
  | .atom, d => ∀ e, Reads (.operand e) d.lexemes (e.withOperand d.tree)

/-- **Phrases are read**: each of them leads from the phase that asks for it to the phase after
    it. -/
theorem Grammar.Phrase.runs {part : Part} (d : Phrase part) : d.Runs := by
  induction d with
  | expr first rest ihf ihr =>
    intro lhs outer
    obtain ⟨sum, v, hv, hrest⟩ := ihr lhs none outer first.tree
    exact ⟨sum, v, hv, (ihf lhs none outer).append hrest⟩
  | noTerms =>
    intro lhs sum outer v
    exact ⟨sum, v, rfl, .nil _⟩
  | term sign span operand rest iho ihr =>
    intro lhs sum outer v
    -- the sum so far becomes the left operand, which is how sums associate to the left
    obtain ⟨sum', v', hv, hrest⟩ :=
      ihr lhs (some ⟨complete sum v, sign.operator⟩) outer operand.tree
    exact ⟨sum', v', hv, .cons (.term _ v sign span) ((iho lhs _ outer).append hrest)⟩
  | product first rest ihf ihr =>
    intro lhs sum outer
    exact (ihf _).append (ihr lhs sum outer first.tree)
  | noFactors => intro lhs sum outer v; exact .nil _
  | factor scale span operand rest iho ihr =>
    intro lhs sum outer v
    exact .cons (.factor _ v scale span) ((iho _).append (ihr lhs sum outer _))
  | plain operand ih => exact ih
  | minus span operand ih => intro e; exact .cons (.sign e span) (ih (e.withSign span))
  | number n => intro e; exact .cons (.number e n) (.nil _)
  | point p => intro e; exact .point p (.point e p.grid)
  | parens openSpan inner closeSpan ih =>
    intro e
    -- what was read outside waits on the stack, and the inner level starts empty
    obtain ⟨sum, v, hv, hinner⟩ := ih e.lhs (e.level :: e.outer)
    refine .cons (.openParen e openSpan) (hinner.append ?_)
    show Reads _ _ (e.withOperand inner.tree)
    rw [← hv]
    exact .cons (.closeParen e.lhs _ e.level e.outer v closeSpan) (.nil _)

section Expressions

variable {done r : List Statement}

/-- What ends an expression of the given value: the parenthesis of the level around it, or the
    semicolon. -/
def Closes (lhs : Point) (value : Expr) : List Level → Lexeme → Move → Prop
  | level :: outer, x, move => ∃ span, x = Symbol.closeParen.lexeme span
      ∧ move = .on (OpenEquation.withOperand ⟨lhs, level, outer⟩ value)
  | [], x, move => ∃ span, x = Symbol.semicolon.lexeme span
      ∧ move = .done ⟨.equation lhs value, ⟨lhs.span.start, span.stop⟩⟩

/-- Where the parser succeeds from an operand on, with at most `k` tokens, an operand follows. -/
def OperandFollows (done r : List Statement) (k : Nat) : Prop :=
  ∀ xs : List Lexeme, xs.length ≤ k → ∀ e, parseFrom done (.operand e) xs = .ok r →
    ∃ (u : Phrase .unary) (ys : List Lexeme), xs = u.lexemes ++ ys
      ∧ parseFrom done (e.withOperand u.tree) ys = .ok r

/-- Where the parser succeeds after an operand, with at most `k` tokens, the rest of a product and
    of a sum follows, and then what ends them. -/
def RestFollows (done r : List Statement) (k : Nat) : Prop :=
  ∀ xs : List Lexeme, xs.length ≤ k → ∀ lhs sum outer v,
    parseFrom done (.operator ⟨lhs, ⟨sum, none, []⟩, outer⟩ v) xs = .ok r →
    ∃ (fs : Phrase .factors) (ts : Phrase .terms) (x : Lexeme) (ys : List Lexeme) (move : Move),
      xs = fs.lexemes ++ (ts.lexemes ++ x :: ys)
        ∧ Closes lhs (ts.tree (complete sum (fs.tree v))) outer x move
        ∧ resume done move ys = .ok r

/-- Where an operand is asked for and reading succeeds, an operand comes and then what may follow
    one. -/
theorem operandFollows_succ {k : Nat} (hoperand : OperandFollows done r k)
    (hrest : RestFollows done r k) : OperandFollows done r (k + 1) := by
  intro xs hlen e h
  obtain ⟨x, ys, move, rfl, hstep, hrun⟩ := step_of_ok (by simp) h
  have hys : ys.length ≤ k := by simpa using hlen
  cases hstep with
  | sign _ span =>
    obtain ⟨u, zs, rfl, hend⟩ := hoperand ys hys _ hrun
    exact ⟨.minus span u, zs, rfl, hend⟩
  | number _ v => exact ⟨.plain (.number v), ys, rfl, hrun⟩
  | point _ g =>
    obtain ⟨p, rfl, zs, hzs, hend⟩ := point_of_ok hrun
    exact ⟨.plain (.point p), zs, hzs, hend⟩
  | openParen _ openSpan =>
    -- the expression inside is an operand and its rest, which only a parenthesis ends
    obtain ⟨u, zs, rfl, hinner⟩ := hoperand ys hys _ hrun
    rw [List.length_append] at hys
    obtain ⟨fs, ts, y, ws, move, rfl, hclose, hend⟩ := hrest zs (by omega) _ _ _ _ hinner
    obtain ⟨closeSpan, rfl, rfl⟩ := hclose
    refine ⟨.plain (.parens openSpan (.expr (.product u fs) ts) closeSpan), ws, ?_, hend⟩
    simp [Phrase.lexemes]

/-- After an operand, where reading succeeds, come the rest of its product and of its sum, and then
    the end. -/
theorem restFollows_succ {k : Nat} (hoperand : OperandFollows done r k)
    (hrest : RestFollows done r k) : RestFollows done r (k + 1) := by
  intro xs hlen lhs sum outer v h
  obtain ⟨x, ys, move, rfl, hstep, hrun⟩ := step_of_ok (by simp) h
  have hys : ys.length ≤ k := by simpa using hlen
  cases hstep with
  | factor _ _ scale span =>
    obtain ⟨u, zs, rfl, hmore⟩ := hoperand ys hys _ hrun
    rw [List.length_append] at hys
    obtain ⟨fs, ts, y, ws, move, rfl, hclose, hend⟩ := hrest zs (by omega) _ _ _ _ hmore
    refine ⟨.factor scale span u fs, ts, y, ws, move, ?_, hclose, hend⟩
    simp [Phrase.lexemes]
  | term _ _ sign span =>
    obtain ⟨u, zs, rfl, hmore⟩ := hoperand ys hys _ hrun
    rw [List.length_append] at hys
    obtain ⟨fs, ts, y, ws, move, rfl, hclose, hend⟩ := hrest zs (by omega) _ _ _ _ hmore
    -- the factors after the operand belong to the new term, not to the product before the sign
    refine ⟨.noFactors, .term sign span (.product u fs) ts, y, ws, move, ?_, hclose, hend⟩
    simp [Phrase.lexemes]
  | closeParen _ _ level outer _ span =>
    exact ⟨.noFactors, .noTerms, _, ys, _, rfl, ⟨span, rfl, rfl⟩, hrun⟩
  | finish _ _ _ span => exact ⟨.noFactors, .noTerms, _, ys, _, rfl, ⟨span, rfl, rfl⟩, hrun⟩

/-- **Both, for texts of any length**: a parenthesis that is opened or an operator that is read
    leaves fewer tokens. -/
theorem follows (done r : List Statement) (k : Nat) :
    OperandFollows done r k ∧ RestFollows done r k := by
  induction k with
  | zero =>
    constructor
    · intro xs hlen e h
      exact absurd (length_pos_of_ok (by simp) h) (Nat.not_lt.mpr hlen)
    · intro xs hlen lhs sum outer v h
      exact absurd (length_pos_of_ok (by simp) h) (Nat.not_lt.mpr hlen)
  | succ k ih => exact ⟨operandFollows_succ ih.1 ih.2, restFollows_succ ih.1 ih.2⟩

/-- **Where the parser succeeds after the equals sign, an expression follows.** -/
theorem expr_of_ok {lhs : Point} {xs : List Lexeme}
    (h : parseFrom done (.operand ⟨lhs, .empty, []⟩) xs = .ok r) :
    ∃ (d : Phrase .expr) (span : Span) (ys : List Lexeme),
      xs = d.lexemes ++ Symbol.semicolon.lexeme span :: ys
        ∧ parseFrom (done ++ [⟨.equation lhs d.tree, ⟨lhs.span.start, span.stop⟩⟩]) .idle ys
          = .ok r := by
  obtain ⟨u, ys, rfl, hrest⟩ := (follows done r _).1 xs (Nat.le_refl _) _ h
  obtain ⟨fs, ts, x, zs, move, rfl, hclose, hend⟩ :=
    (follows done r _).2 ys (Nat.le_refl _) _ _ _ _ hrest
  obtain ⟨span, rfl, rfl⟩ := hclose
  refine ⟨.expr (.product u fs) ts, span, zs, ?_, hend⟩
  simp [Phrase.lexemes]

end Expressions

/-! ## Statements -/

/-- **Clauses are read**, up to a phase that a semicolon ends. -/
theorem Grammar.Clause.reads (c : Grammar.Clause) :
    ∃ phase, Reads .idle c.lexemes phase
      ∧ ∀ span, Step phase (Symbol.semicolon.lexeme span)
        (.done ⟨c.tree, ⟨c.start, span.stop⟩⟩) := by
  cases c with
  | solution a name =>
    exact ⟨_, .cons (.keyword .solution a) (.cons (.name _ _ name) (.nil _)), .semicolon _ _⟩
  | set a name b value =>
    exact ⟨_, .cons (.keyword .set a) (.cons (.name _ _ name) (.cons (.setEquals _ name b)
      (.cons (.setValue _ name value) (.nil _)))), .semicolon _ _⟩
  | step a name =>
    exact ⟨_, .cons (.keyword .step a) (.cons (.name _ _ name) (.nil _)), .semicolon _ _⟩
  | domain a names =>
    obtain ⟨name, rest⟩ := names
    exact ⟨_, .cons (.keyword .domain a) (.cons (.name _ _ name)
      ((domainNames a.start).reads rest [name])), .domainEnd _ _⟩
  | grid a name openSpan dims closeSpan =>
    refine ⟨.closing a.start (.grid name (listItems dims)), .cons (.keyword .grid a)
      (.cons (.name _ _ name) (.cons (.gridOpen _ name openSpan) ?_)), .semicolon _ _⟩
    cases dims with
    | none => exact .cons (.gridEmpty _ name closeSpan) (.nil _)
    | some s =>
      obtain ⟨d, rest⟩ := s
      refine .cons (.gridFirst _ name d) ?_
      exact ((gridNames a.start name).reads rest [d]).append
        (.cons (.gridClose _ name _ closeSpan) (.nil _))
  | equation lhs a rhs =>
    -- the right side ends with its last operand and the sum that waits for it
    obtain ⟨sum, v, hv, hrhs⟩ := rhs.runs lhs.tree []
    refine ⟨_, (Reads.point lhs (.grid lhs.grid)).append (.cons (.equals lhs.tree a) hrhs), ?_⟩
    intro span
    show Step _ _ (.done ⟨.equation lhs.tree rhs.tree, _⟩)
    rw [← hv]
    exact .finish lhs.tree _ v span

theorem parseFrom_statement (s : Grammar.Statement) (done : List Statement) (rest : List Lexeme) :
    parseFrom done .idle (s.lexemes ++ rest) = parseFrom (done ++ [s.tree]) .idle rest := by
  obtain ⟨phase, hreads, hend⟩ := s.clause.reads
  rw [Grammar.Statement.lexemes, List.append_assoc, hreads]
  exact (hend s.semicolonSpan).parseFrom_eq done rest

section Statements

variable {done r : List Statement}

/-- A statement comes first, and the parser succeeds after it. -/
def StatementFollows (done r : List Statement) (xs : List Lexeme) : Prop :=
  ∃ (s : Grammar.Statement) (ys : List Lexeme), xs = s.lexemes ++ ys
    ∧ parseFrom (done ++ [s.tree]) .idle ys = .ok r

theorem closing_of_ok {start : Nat} {c : Clause} {xs : List Lexeme}
    (h : parseFrom done (.closing start c) xs = .ok r) :
    ∃ span ys, xs = Symbol.semicolon.lexeme span :: ys
      ∧ parseFrom (done ++ [⟨c, ⟨start, span.stop⟩⟩]) .idle ys = .ok r := by
  obtain ⟨x, ys, move, rfl, hstep, hrun⟩ := step_of_ok (by simp) h
  cases hstep with
  | semicolon _ _ span => exact ⟨span, ys, rfl, hrun⟩

/-- Where the parser succeeds after `set` and a name, a value follows. -/
theorem set_of_ok {a : Span} {name : Ident} {xs : List Lexeme}
    (h : parseFrom done (.setting a.start name) xs = .ok r) :
    StatementFollows done r (Keyword.set.lexeme a :: name.lexeme :: xs) := by
  obtain ⟨x, ys, move, rfl, hstep, hrun⟩ := step_of_ok (by simp) h
  cases hstep with
  | setEquals _ _ b =>
    obtain ⟨y, zs, move', rfl, hstep', hrun'⟩ := step_of_ok (by simp) hrun
    cases hstep' with
    | setValue _ _ v =>
      obtain ⟨span, ws, rfl, hend⟩ := closing_of_ok hrun'
      exact ⟨⟨.set a name b v, span⟩, ws, rfl, hend⟩

/-- Where the parser succeeds after `domain` and a name, more names follow. -/
theorem domain_of_ok {a : Span} {name : Ident} {xs : List Lexeme}
    (h : parseFrom done (.domains a.start [name]) xs = .ok r) :
    StatementFollows done r (Keyword.domain.lexeme a :: name.lexeme :: xs) := by
  obtain ⟨rest, x, ys, move, rfl, ⟨span, rfl, rfl⟩, hend⟩ :=
    (domainNames a.start).of_ok _ xs (Nat.le_refl _) [name] h
  refine ⟨⟨.domain a ⟨name, rest⟩, span⟩, ys, ?_, hend⟩
  simp [Grammar.Statement.lexemes, Grammar.Clause.lexemes, Separated.lexemes]

/-- Where the parser succeeds after `grid` and a name, dimensions follow. -/
theorem grid_of_ok {a : Span} {name : Ident} {xs : List Lexeme}
    (h : parseFrom done (.gridNamed a.start name) xs = .ok r) :
    StatementFollows done r (Keyword.grid.lexeme a :: name.lexeme :: xs) := by
  obtain ⟨x, ys, move, rfl, hstep, hrun⟩ := step_of_ok (by simp) h
  cases hstep with
  | gridOpen _ _ openSpan =>
    obtain ⟨y, zs, move', rfl, hstep', hrun'⟩ := step_of_ok (by simp) hrun
    cases hstep' with
    | gridEmpty _ _ closeSpan =>
      obtain ⟨span, ws, rfl, hend⟩ := closing_of_ok hrun'
      exact ⟨⟨.grid a name openSpan none closeSpan, span⟩, ws, rfl, hend⟩
    | gridFirst _ _ d =>
      obtain ⟨rest, x, ys, move, rfl, ⟨closeSpan, rfl, rfl⟩, hrun''⟩ :=
        (gridNames a.start name).of_ok _ zs (Nat.le_refl _) [d] hrun'
      obtain ⟨span, ws, rfl, hend⟩ := closing_of_ok hrun''
      refine ⟨⟨.grid a name openSpan (some ⟨d, rest⟩) closeSpan, span⟩, ws, ?_, hend⟩
      simp [Grammar.Statement.lexemes, Grammar.Clause.lexemes, listLexemes, Separated.lexemes]

/-- Where the parser succeeds after the grid of a left-hand side, an equation follows. -/
theorem equation_of_ok {g : Ident} {xs : List Lexeme}
    (h : parseFrom done (.point .target g .named) xs = .ok r) :
    StatementFollows done r (g.lexeme :: xs) := by
  obtain ⟨lhs, rfl, ys, hys, hrun⟩ := point_of_ok h
  obtain ⟨x, zs, move, rfl, hstep, hrun'⟩ := step_of_ok (by simp [Site.close]) hrun
  cases hstep with
  | equals _ a =>
    obtain ⟨rhs, span, ws, rfl, hend⟩ := expr_of_ok hrun'
    refine ⟨⟨.equation lhs a rhs, span⟩, ws, ?_, hend⟩
    rw [hys]
    simp [Grammar.Statement.lexemes, Grammar.Clause.lexemes]

/-- **Where the parser succeeds and there is a token, a statement follows.** -/
theorem statement_of_ok {x : Lexeme} {xs : List Lexeme}
    (h : parseFrom done .idle (x :: xs) = .ok r) :
    StatementFollows done r (x :: xs) := by
  obtain ⟨move, hstep, hrun⟩ := step_of_cons_ok h
  cases hstep with
  | grid g => exact equation_of_ok hrun
  | keyword k a =>
    obtain ⟨y, ys, move', rfl, hstep', hrun'⟩ := step_of_ok (by simp) hrun
    cases hstep' with
    | name _ _ n =>
      cases k with
      | solution =>
        obtain ⟨span, zs, rfl, hend⟩ := closing_of_ok hrun'
        exact ⟨⟨.solution a n, span⟩, zs, rfl, hend⟩
      | set => exact set_of_ok hrun'
      | step =>
        obtain ⟨span, zs, rfl, hend⟩ := closing_of_ok hrun'
        exact ⟨⟨.step a n, span⟩, zs, rfl, hend⟩
      | domain => exact domain_of_ok hrun'
      | grid => exact grid_of_ok hrun'

end Statements

/-! ## Programs -/

/-- Statements are read to their trees, in their order, whatever was read before. -/
theorem parseFrom_statements (ss : List Grammar.Statement) :
    ∀ done, parseFrom done .idle (ss.flatMap Grammar.Statement.lexemes)
      = .ok (done ++ ss.map Grammar.Statement.tree) := by
  induction ss with
  | nil => intro done; simp [parseFrom]
  | cons s ss ih =>
    intro done
    rw [List.flatMap_cons, parseFrom_statement, ih]
    simp

/-- Where the parser succeeds from the start of a statement, statements follow. -/
theorem statements_of_ok {r : List Statement} : ∀ (k : Nat) (xs : List Lexeme), xs.length ≤ k →
    ∀ done, parseFrom done .idle xs = .ok r →
    ∃ ss : List Grammar.Statement, ss.flatMap Grammar.Statement.lexemes = xs := by
  intro k
  induction k with
  | zero =>
    intro xs hlen done _
    exact ⟨[], (List.length_eq_zero_iff.mp (Nat.le_zero.mp hlen)).symm⟩
  | succ k ih =>
    intro xs hlen done h
    cases xs with
    | nil => exact ⟨[], rfl⟩
    | cons x xs =>
      obtain ⟨s, ys, hxs, hrun⟩ := statement_of_ok h
      have hys : ys.length ≤ k := by
        have hlength := congrArg List.length hxs
        simp only [List.length_cons, List.length_append, Grammar.Statement.lexemes,
          List.length_nil] at hlength hlen
        omega
      obtain ⟨ss, rfl⟩ := ih ys hys _ hrun
      exact ⟨s :: ss, by rw [hxs, List.flatMap_cons]⟩

/-- A program starts where its first statement does. -/
theorem head?_flatMap_lexemes (s : Grammar.Statement) (ss : List Grammar.Statement) :
    ∃ x, ((s :: ss).flatMap Grammar.Statement.lexemes).head? = some x
      ∧ x.span.start = s.tree.span.start := by
  obtain ⟨x, xs, hs, hx⟩ := s.lexemes_eq_cons
  exact ⟨x, by rw [List.flatMap_cons, hs]; rfl, hx⟩

/-- A program ends where its last statement does. -/
theorem getLast?_flatMap_lexemes (ss : List Grammar.Statement) (s : Grammar.Statement) :
    ∃ x, ((ss ++ [s]).flatMap Grammar.Statement.lexemes).getLast? = some x
      ∧ x.span.stop = s.tree.span.stop := by
  refine ⟨Symbol.semicolon.lexeme s.semicolonSpan, ?_, rfl⟩
  rw [List.flatMap_append, List.flatMap_singleton, Grammar.Statement.lexemes,
    ← List.append_assoc, List.getLast?_concat]

/-- A program spans its tokens, from the first one to the last one. -/
theorem programSpan_lexemes (p : Grammar.Program) (length : Nat) :
    programSpan length p.lexemes = (p.tree length).span := by
  obtain ⟨ss⟩ := p
  cases ss with
  | nil => rfl
  | cons first ss =>
    obtain ⟨init, last, hlast⟩ : ∃ init last, first :: ss = init ++ [last] :=
      ⟨_, _, (List.dropLast_append_getLast (List.cons_ne_nil first ss)).symm⟩
    obtain ⟨x, hx, hstart⟩ := head?_flatMap_lexemes first ss
    obtain ⟨y, hy, hstop⟩ := getLast?_flatMap_lexemes init last
    rw [← hlast] at hy
    simp only [programSpan, Grammar.Program.lexemes, Grammar.Program.tree, hx, hy, hstart, hstop,
      List.head?_cons]
    rw [hlast, List.getLast?_concat]

/-- The parser gives the tree of a derivation. -/
theorem parse_lexemes (p : Grammar.Program) (length : Nat) :
    parse length p.lexemes = .ok (p.tree length) := by
  rw [parse_eq, programSpan_lexemes, Grammar.Program.lexemes, parseFrom_statements]
  rfl

/-- What is accepted has a derivation, with just the tokens that were read. -/
theorem derivation_of_ok {length : Nat} {xs : List Lexeme} {program : Program}
    (h : parse length xs = .ok program) : ∃ p : Grammar.Program, p.lexemes = xs := by
  rw [parse_eq] at h
  cases hrun : parseFrom [] .idle xs with
  | error e => rw [hrun] at h; exact absurd h (by simp [Except.map])
  | ok r =>
    obtain ⟨ss, hss⟩ := statements_of_ok _ xs (Nat.le_refl _) [] hrun
    exact ⟨⟨ss⟩, hss⟩

/-- **The parser accepts exactly what the grammar derives, and gives the tree of the derivation.**
    Tokens have one derivation at most. -/
theorem parse_eq_ok_iff_derivation (length : Nat) (xs : List Lexeme) :
    (∀ program, parse length xs = .ok program ↔
        ∃ p : Grammar.Program, p.lexemes = xs ∧ p.tree length = program)
      ∧ ∀ p p' : Grammar.Program, p.lexemes = xs → p'.lexemes = xs → p = p' := by
  constructor
  · intro program
    constructor
    · intro h
      obtain ⟨p, rfl⟩ := derivation_of_ok h
      rw [parse_lexemes] at h
      injection h with h
      exact ⟨p, rfl, h⟩
    · rintro ⟨p, rfl, rfl⟩
      exact parse_lexemes p length
  · intro p p' hp hp'
    exact Grammar.Program.lexemes_injective (hp.trans hp'.symm)

end Stencil.Source
