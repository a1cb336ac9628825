import Mathlib
import Stencil.Proofs.Meaning
import Stencil.Proofs.ModelText
import Stencil.Proofs.Scanning

/-!
# Texts that are read as what they say

A text is *written* for something if it is scanned to tokens from which the grammar derives it,
wherever the tokens stand (`Written`). Written texts are put together like derivations: one after
the other (`Written.append`), with blanks and commas between them, and from the words, numerals and
symbols up. The texts of points and expressions are written for what they stand for
(`written_point`, `written_expr`): an expression is an operand as a whole, because each operation
has its parentheses.

Two things are said at once by `Written`: what the characters are scanned to, and what the tokens
are derived from. Places are left open, since the same characters stand at another place in every
text; the derivation takes whatever places the tokens have. What may follow the text is a parameter,
for a word must not go on, and a symbol does not care.

Names that are reserved words cannot be written as names (`Nameable`), and offsets that no double is
worth cannot be written as numbers (`Representable`). These are the two conditions that a solution
must meet to have a text.
-/

namespace Stencil.Source

variable {α β : Type}

/-- **The text is read as something**: followed by a text as required, it is scanned to tokens, and
    wherever these stand, they are the tokens of something as described. -/
def Written (follows : List Char → Prop) (text : List Char) (lexemes : α → List Lexeme)
    (P : α → Prop) : Prop :=
  ∃ ts : List Token,
    (∀ rest, follows rest → outline (text ++ rest) = ts.map some ++ outline rest)
      ∧ ∀ xs : List Lexeme, xs.map Lexeme.token = ts → ∃ a, lexemes a = xs ∧ P a

/-- No requirement. -/
def Anything (_ : List Char) : Prop := True

section Combinators

variable {follows follows' : List Char → Prop} {text text' : List Char}
  {lexemes : α → List Lexeme} {lexemes' : β → List Lexeme} {P : α → Prop} {Q : β → Prop}

/-- What the same tokens are read as in another way. -/
theorem Written.map (h : Written follows text lexemes P)
    (hmap : ∀ a, P a → ∃ b, lexemes' b = lexemes a ∧ Q b) : Written follows text lexemes' Q := by
  obtain ⟨ts, hscan, hderive⟩ := h
  refine ⟨ts, hscan, fun xs hxs => ?_⟩
  obtain ⟨a, ha, hP⟩ := hderive xs hxs
  obtain ⟨b, hb, hQ⟩ := hmap a hP
  exact ⟨b, hb.trans ha, hQ⟩

/-- A text that may be followed by many things may be followed by fewer. -/
theorem Written.mono (h : Written follows text lexemes P) (hsub : ∀ rest, follows' rest → follows rest) :
    Written follows' text lexemes P := by
  obtain ⟨ts, hscan, hderive⟩ := h
  exact ⟨ts, fun rest hrest => hscan rest (hsub rest hrest), hderive⟩

/-- One text after the other, where the first may be followed by the second. -/
theorem Written.append (h : Written follows text lexemes P) (h' : Written follows' text' lexemes' Q)
    (hfollows : ∀ rest, follows' rest → follows (text' ++ rest)) :
    Written follows' (text ++ text') (fun ab : α × β => lexemes ab.1 ++ lexemes' ab.2)
      (fun ab => P ab.1 ∧ Q ab.2) := by
  obtain ⟨ts, hscan, hderive⟩ := h
  obtain ⟨ts', hscan', hderive'⟩ := h'
  refine ⟨ts ++ ts', fun rest hrest => ?_, fun xs hxs => ?_⟩
  · rw [List.append_assoc, hscan _ (hfollows rest hrest), hscan' rest hrest, List.map_append,
      List.append_assoc]
  · -- the tokens of the two texts are told apart by their number
    obtain ⟨ys, ys', rfl, hys, hys'⟩ := List.map_eq_append_iff.mp hxs
    obtain ⟨a, rfl, hP⟩ := hderive ys hys
    obtain ⟨b, rfl, hQ⟩ := hderive' ys' hys'
    exact ⟨(a, b), rfl, hP, hQ⟩

/-- A blank before a text is not seen. -/
theorem Written.blank (h : Written follows text lexemes P) :
    Written follows (' ' :: text) lexemes P := by
  obtain ⟨ts, hscan, hderive⟩ := h
  have hblank : isBlank ' ' = true := rfl
  refine ⟨ts, fun rest hrest => ?_, hderive⟩
  rw [List.cons_append, outline_blank hblank, hscan rest hrest]

end Combinators

/-! ## Tokens -/

theorem written_blanks {gap : List Char} (hgap : ∀ c ∈ gap, isBlank c = true) :
    Written Anything gap (fun _ : Unit => []) (fun _ => True) := by
  refine ⟨[], fun rest _ => outline_blanks hgap rest, fun xs hxs => ⟨(), ?_, trivial⟩⟩
  rw [List.map_eq_nil_iff.mp hxs]

theorem exists_lexeme {t : Token} {xs : List Lexeme} (h : xs.map Lexeme.token = [t]) :
    ∃ span, xs = [⟨t, span⟩] := by
  obtain ⟨x, rest, rfl, hx, hrest⟩ := List.map_eq_cons_iff.mp h
  rw [List.map_eq_nil_iff.mp hrest, ← hx]
  exact ⟨x.span, rfl⟩

theorem written_symbol (s : Symbol) :
    Written Anything [s.char] (fun span => [s.lexeme span]) (fun _ => True) := by
  refine ⟨[.symbol s], fun rest _ => outline_symbol s rest, fun xs hxs => ?_⟩
  obtain ⟨span, rfl⟩ := exists_lexeme hxs
  exact ⟨span, rfl, trivial⟩

/-- The text can stand for a name: it is an identifier and no reserved word. -/
structure Nameable (name : String) : Prop where
  identifier : IsIdentifier name
  notKeyword : ∀ k : Keyword, name ≠ k.text

theorem nameable_iff (name : String) :
    Nameable name ↔ isIdentifier name = true ∧ Keyword.ofText? name = none := by
  rw [isIdentifier_iff, Keyword.ofText?, List.find?_eq_none]
  constructor
  · intro h
    exact ⟨h.identifier, fun k _ hk => h.notKeyword k (by simpa using hk : k.text = name).symm⟩
  · rintro ⟨hname, hnone⟩
    exact ⟨hname, fun k hk => hnone k (by cases k <;> decide) (by simp [hk])⟩

instance (name : String) : Decidable (Nameable name) := decidable_of_iff _ (nameable_iff name).symm

theorem Nameable.wordToken {name : String} (h : Nameable name) : wordToken name = .ident name := by
  rw [Source.wordToken, ((nameable_iff name).mp h).2]

/-- **A name is written by its characters**, where nothing follows that could extend it. -/
theorem written_name {name : String} (h : Nameable name) :
    Written Breaks name.toList (fun id : Ident => [id.lexeme]) (fun id => id.name = name) := by
  refine ⟨[.ident name], fun rest hrest => ?_, fun xs hxs => ?_⟩
  · rw [outline_word h.identifier hrest, h.wordToken]
    rfl
  · obtain ⟨span, rfl⟩ := exists_lexeme hxs
    exact ⟨⟨name, span⟩, rfl, rfl⟩

theorem isIdentifier_keyword (k : Keyword) : IsIdentifier k.text := by
  rw [← isIdentifier_iff]
  cases k <;> decide

theorem written_keyword (k : Keyword) :
    Written Breaks k.text.toList (fun span => [k.lexeme span]) (fun _ => True) := by
  refine ⟨[.keyword k], fun rest hrest => ?_, fun xs hxs => ?_⟩
  · rw [outline_word (isIdentifier_keyword k) hrest, wordToken_keyword]
    rfl
  · obtain ⟨span, rfl⟩ := exists_lexeme hxs
    exact ⟨span, rfl, trivial⟩

/-- **A numeral is written by its characters**, and has the value that it denotes. -/
theorem written_numeral {n : Numeral} (h : n.Plain) :
    Written Breaks n.text (fun m : Number => [m.lexeme])
      (fun m => m.value = n.value.toDouble false) := by
  refine ⟨[.number (n.value.toDouble false)], fun rest hrest => outline_numeral h hrest,
    fun xs hxs => ?_⟩
  obtain ⟨span, rfl⟩ := exists_lexeme hxs
  exact ⟨⟨_, span⟩, rfl, rfl⟩

theorem written_nat (n : Nat) :
    Written Breaks (Nat.toDigits 10 n) (fun m : Number => [m.lexeme])
      (fun m => m.value = (⟨n, 0⟩ : Decimal).toDouble false) := by
  have hplain : Numeral.Plain ⟨Nat.toDigits 10 n, [], none⟩ :=
    ⟨Nat.toDigits_ne_nil, fun c hc => isDigit_of_mem_toDigits hc,
      fun c hc => absurd hc List.not_mem_nil, rfl⟩
  have htext : Numeral.text ⟨Nat.toDigits 10 n, [], none⟩ = Nat.toDigits 10 n := by
    simp [Numeral.text, Numeral.fractionText]
  have hvalue : Numeral.value ⟨Nat.toDigits 10 n, [], none⟩ = ⟨n, 0⟩ := by
    simp [Numeral.value, ofDigits_toDigits]
  have hwritten := written_numeral hplain
  rw [htext, hvalue] at hwritten
  exact hwritten

/-! ## What breaks a word -/

theorem breaks_symbol (s : Symbol) (cs : List Char) : Breaks (s.char :: cs) := by
  cases s <;> exact breaks_cons (by decide) (by decide) cs

theorem breaks_blank (cs : List Char) : Breaks (' ' :: cs) := breaks_cons (by decide) (by decide) cs

/-! ## Lists -/

/-- Parts with commas between them are written for a list of what the parts are written for. -/
theorem written_separated {γ : Type} (text : γ → String) {lexemes : α → List Lexeme}
    (R : α → γ → Prop) (cs : List γ) : ∀ c : γ,
    (∀ c' ∈ c :: cs, Written Breaks (text c').toList lexemes (fun a => R a c')) →
      Written Breaks (Text.join ", " ((c :: cs).map text)).toList (Grammar.Separated.lexemes lexemes)
        (fun s => List.Forall₂ R s.items (c :: cs)) := by
  induction cs with
  | nil =>
    intro c h
    have hfirst := h c List.mem_cons_self
    have htext : (Text.join ", " ([c].map text)).toList = (text c).toList := by
      simp [Text.join]
    rw [htext]
    refine hfirst.map fun a ha => ⟨⟨a, []⟩, ?_, .cons ha .nil⟩
    exact List.append_nil _
  | cons c' cs ih =>
    -- the first part, a comma and a blank, and a list of the others
    intro c h
    obtain ⟨hfirst, hrest⟩ := List.forall_mem_cons.mp h
    have htext : (Text.join ", " ((c :: c' :: cs).map text)).toList
        = (text c).toList ++ ([Symbol.comma.char]
          ++ (' ' :: (Text.join ", " ((c' :: cs).map text)).toList)) := by
      have hcons := toList_join_cons (text c) ((c' :: cs).map text) []
      simpa [afterPart, Symbol.char] using hcons
    rw [htext]
    have htail := (written_symbol .comma).append (ih c' hrest).blank fun _ _ => trivial
    refine (hfirst.append htail fun rest _ => breaks_symbol .comma _).map ?_
    rintro ⟨a, span, s⟩ ⟨ha, _, hs⟩
    refine ⟨⟨a, (span, s.first) :: s.rest⟩, ?_, .cons ha hs⟩
    simp [Grammar.Separated.lexemes, Grammar.Separated.restLexemes]

/-- The same in parentheses, where there may be none. -/
theorem written_list {γ : Type} (text : γ → String) {lexemes : α → List Lexeme}
    (R : α → γ → Prop) (cs : List γ)
    (h : ∀ c ∈ cs, Written Breaks (text c).toList lexemes (fun a => R a c)) :
    Written Anything ('(' :: ((Text.join ", " (cs.map text)).toList ++ [')']))
      (fun d : Span × Option (Grammar.Separated α) × Span =>
        Symbol.openParen.lexeme d.1
          :: (Grammar.listLexemes lexemes d.2.1 ++ [Symbol.closeParen.lexeme d.2.2]))
      (fun d => List.Forall₂ R (Grammar.listItems d.2.1) cs) := by
  have hclose := written_symbol .closeParen
  cases cs with
  | nil =>
    refine ((written_symbol .openParen).append hclose fun _ _ => trivial).map ?_
    rintro ⟨openSpan, closeSpan⟩ _
    exact ⟨(openSpan, none, closeSpan), rfl, .nil⟩
  | cons c cs =>
    have hitems := (written_separated text R cs c h).append hclose fun rest _ => breaks_symbol .closeParen _
    refine ((written_symbol .openParen).append hitems fun _ _ => trivial).map ?_
    rintro ⟨openSpan, s, closeSpan⟩ ⟨_, hs, _⟩
    exact ⟨(openSpan, some s, closeSpan), rfl, hs⟩

/-! ## Points -/

/-- The offset is a number of the source language. -/
def Representable (o : Int64) : Prop := ∃ x : Double, x.IsInt o.toInt

/-- Whether an offset can be written is decided by reading its digits back. -/
theorem representable_iff (o : Int64) :
    Representable o ↔ ((⟨o.toInt.natAbs, 0⟩ : Decimal).toDouble false).toInt?
      = some (o.toInt.natAbs : Int) := by
  rw [Double.toInt?_eq_some_iff]
  constructor
  · rintro ⟨x, hx⟩
    exact Double.isInt_toDouble hx
  · intro h
    unfold Representable
    rcases Int.natAbs_eq o.toInt with hpos | hneg
    · rw [hpos]
      exact ⟨_, h⟩
    · rw [hneg]
      exact ⟨_, h.neg⟩

instance (o : Int64) : Decidable (Representable o) := decidable_of_iff _ (representable_iff o).symm

/-- The index stands for the dimension with the offset. -/
def IndexMeans (j : Grammar.Index) (i : Dim × Int64) : Prop :=
  j.tree.dim.name = i.1.name ∧ j.tree.offset.IsInt i.2.toInt

/-- **An index is written for its dimension and its offset.** -/
theorem written_index {i : Dim × Int64} (hdim : Nameable i.1.name) (ho : Representable i.2) :
    Written Breaks (Stencil.Point.indexText i.1.name i.2).toList Grammar.Index.lexemes
      (fun j => IndexMeans j i) := by
  obtain ⟨d, o⟩ := i
  obtain ⟨x, hx⟩ := ho
  have hint := Double.isInt_toDouble hx
  rw [Stencil.Point.toList_indexText]
  rcases Stencil.Point.offsetText_cases o with ⟨hsign, htext⟩ | ⟨hsign, htext⟩ | ⟨hsign, htext⟩
  · rw [htext, List.append_nil]
    refine (written_name hdim).map fun id hid => ⟨⟨id, none⟩, rfl, hid, ?_⟩
    rw [hsign]
    exact Double.isInt_zero
  · have habs : (o.toInt.natAbs : Int) = o.toInt := by omega
    rw [htext]
    have hoffset := (written_symbol .plus).append (written_nat o.toInt.natAbs) fun _ _ => trivial
    refine ((written_name hdim).append hoffset fun rest _ => breaks_symbol .plus _).map ?_
    rintro ⟨id, span, m⟩ ⟨hid, _, hm⟩
    refine ⟨⟨id, some ⟨.plus, span, m⟩⟩, rfl, hid, ?_⟩
    show m.value.IsInt o.toInt
    rw [hm]
    rwa [habs] at hint
  -- the sign is a token of its own, so that the number that is read is the magnitude
  · have habs : -(o.toInt.natAbs : Int) = o.toInt := by omega
    rw [htext]
    have hoffset := (written_symbol .minus).append (written_nat o.toInt.natAbs) fun _ _ => trivial
    refine ((written_name hdim).append hoffset fun rest _ => breaks_symbol .minus _).map ?_
    rintro ⟨id, span, m⟩ ⟨hid, _, hm⟩
    refine ⟨⟨id, some ⟨.minus, span, m⟩⟩, rfl, hid, ?_⟩
    show m.value.neg.IsInt o.toInt
    have hneg := hint.neg
    rw [hm]
    rwa [habs] at hneg

/-- The names of a grid can stand in a source text. -/
def GridNameable (g : Grid) : Prop := Nameable g.name ∧ ∀ d ∈ g.dims, Nameable d.name

variable {grids : List Grid}

/-- The point belongs to one of the grids, and its names and offsets can stand in a source text. -/
structure PointWritable (grids : List Grid) (q : Stencil.Point) : Prop where
  grid : q.grid ∈ grids
  names : GridNameable q.grid
  offsets : ∀ o ∈ q.offsets, Representable o

/-- **A point is written for itself**: read back, its text means the point again. -/
theorem written_point {q : Stencil.Point} (hq : PointWritable grids q) :
    Written Anything q.text.toList Grammar.Point.lexemes (fun p => p.tree.Means grids q) := by
  have hindices : ∀ i ∈ q.indices,
      Written Breaks (Stencil.Point.indexText i.1.name i.2).toList Grammar.Index.lexemes
        (fun j => IndexMeans j i) := by
    intro i hi
    have hmem : i.1 ∈ q.grid.dims ∧ i.2 ∈ q.offsets := List.of_mem_zip hi
    exact written_index (hq.names.2 _ hmem.1) (hq.offsets _ hmem.2)
  have hlist := written_list (fun i : Dim × Int64 => Stencil.Point.indexText i.1.name i.2)
    IndexMeans q.indices hindices
  have htext : q.text.toList = q.grid.name.toList
      ++ '(' :: ((Text.join ", "
        (q.indices.map fun i => Stencil.Point.indexText i.1.name i.2)).toList ++ [')']) := by
    simpa [Stencil.Point.indexTexts] using q.toList_text []
  rw [htext]
  refine ((written_name hq.names.1).append hlist fun rest _ => breaks_symbol .openParen _).map ?_
  rintro ⟨id, openSpan, s, closeSpan⟩ ⟨hid, hs⟩
  refine ⟨⟨id, openSpan, s, closeSpan⟩, by simp [Grammar.Point.lexemes], hq.grid, hid.symm, ?_, ?_⟩
  · -- the dimensions are the first parts of the indices
    have hnames : (Grammar.listItems s).map (fun j => j.tree.dim.name)
        = q.indices.map (fun i => i.1.name) := by
      rw [← List.forall₂_eq_eq_eq, List.forall₂_map_left_iff, List.forall₂_map_right_iff]
      exact hs.imp fun _ _ h => h.1
    have hdims : q.indices.map Prod.fst = q.grid.dims := List.map_fst_zip q.sound.ge
    show ((Grammar.listItems s).map Grammar.Index.tree).map (fun j => j.dim.name) = q.grid.dimNames
    rw [List.map_map, Grid.dimNames, ← hdims, List.map_map]
    exact hnames
  · have hoffsets : q.indices.map Prod.snd = q.offsets := List.map_snd_zip q.sound.le
    show List.Forall₂ _ ((Grammar.listItems s).map Grammar.Index.tree) q.offsets
    rw [← hoffsets, List.forall₂_map_left_iff, List.forall₂_map_right_iff]
    exact hs.imp fun _ _ h => h.2

/-! ## Expressions -/

/-- The magnitude of a finite number is written for the number without its sign. -/
theorem written_magnitude {v : Double} (hv : v.isFinite = true) :
    Written Breaks (Style.plain.magnitudeText .double v.magnitude).toList
      (fun m : Number => [m.lexeme]) (fun m => m.value = .ofMagnitude false v.magnitude) := by
  have hfin : v.magnitude < Layout.double.infinity := by simpa [Double.isFinite] using hv
  obtain ⟨n, hplain, htext, hvalue⟩ := exists_numeral_of_magnitudeText Double.even_binade hfin
  have hwritten := written_numeral hplain
  rw [Decimal.toDouble, hvalue] at hwritten
  rw [htext]
  exact hwritten

/-- **A number is written for itself**: the sign is a minus, and the negative of a number is a
    number. -/
theorem written_const {v : Double} (hv : v.isFinite = true) :
    Written Breaks v.text.toList (fun u : Grammar.Phrase .unary => u.lexemes)
      (fun u => u.tree.Means grids (.const v)) := by
  have hfin : v.magnitude < Layout.double.infinity := by simpa [Double.isFinite] using hv
  have hnan : v.isNaN = false := by simpa [Double.isNaN] using hfin.le
  have hmagnitude := written_magnitude hv
  have hself := v.ofMagnitude_magnitude
  rw [v.toList_text hnan]
  -- a negative number is written as two tokens, which are read as the negative of a number
  cases hsign : v.isNegative with
  | false =>
    rw [hsign] at hself
    refine hmagnitude.map fun m hm => ⟨.plain (.number m), rfl, ?_⟩
    have hvalue : m.value = v := hm.trans hself
    rw [← hvalue]
    exact .number m.value m.span
  | true =>
    rw [hsign] at hself
    refine ((written_symbol .minus).append hmagnitude fun _ _ => trivial).map ?_
    rintro ⟨span, m⟩ ⟨_, hm⟩
    refine ⟨.minus span (.plain (.number m)), rfl, ?_⟩
    have hvalue : m.value.neg = v := by
      rw [hm, Double.neg_ofMagnitude false (Double.magnitude_lt v)]
      exact hself
    rw [← hvalue]
    exact .negNumber m.value m.span _

/-- The symbol of an operator. -/
def operatorSymbol : Operator → Symbol
  | .add => .plus
  | .sub => .minus
  | .mul => .star
  | .div => .slash

/-- An operation in parentheses: each operand is a term, or each is a factor. -/
def operation (openSpan : Span) (lhs : Grammar.Phrase .unary) (span : Span)
    (rhs : Grammar.Phrase .unary) (closeSpan : Span) : Operator → Grammar.Phrase .unary
  | .add => sum .plus
  | .sub => sum .minus
  | .mul => product .star
  | .div => product .slash
where
  sum (sign : Grammar.Sign) : Grammar.Phrase .unary :=
    .plain (.parens openSpan (.expr (.product lhs .noFactors)
      (.term sign span (.product rhs .noFactors) .noTerms)) closeSpan)
  product (scale : Grammar.Scale) : Grammar.Phrase .unary :=
    .plain (.parens openSpan (.expr (.product lhs (.factor scale span rhs .noFactors)) .noTerms)
      closeSpan)

section Operations

variable (openSpan span closeSpan : Span) (lhs rhs : Grammar.Phrase .unary)

theorem lexemes_operation (op : Operator) :
    (operation openSpan lhs span rhs closeSpan op).lexemes
      = Symbol.openParen.lexeme openSpan :: (lhs.lexemes ++ (operatorSymbol op).lexeme span
        :: (rhs.lexemes ++ [Symbol.closeParen.lexeme closeSpan])) := by
  cases op <;> simp [operation, operation.sum, operation.product, operatorSymbol,
    Grammar.Phrase.lexemes, Grammar.Sign.symbol, Grammar.Scale.symbol]

theorem tree_operation (op : Operator) :
    (operation openSpan lhs span rhs closeSpan op).tree
      = .binary op lhs.tree rhs.tree ⟨lhs.tree.span.start, rhs.tree.span.stop⟩ := by
  cases op <;> rfl

end Operations

/-- The points and the constants of an expression can stand in a source text. -/
structure ExprWritable (grids : List Grid) (e : Stencil.Expr) : Prop where
  points : ∀ q ∈ e.points, PointWritable grids q
  constants : ∀ v ∈ e.constants, v.isFinite = true

theorem ExprWritable.operands {op : Operator} {lhs rhs : Stencil.Expr}
    (h : ExprWritable grids (.binary op lhs rhs)) :
    ExprWritable grids lhs ∧ ExprWritable grids rhs := by
  obtain ⟨hpoints, hconstants⟩ := h
  obtain ⟨hpl, hpr⟩ := List.forall_mem_append.mp hpoints
  obtain ⟨hcl, hcr⟩ := List.forall_mem_append.mp hconstants
  exact ⟨⟨hpl, hcl⟩, ⟨hpr, hcr⟩⟩

/-- **An expression is written for itself**, as an operand: an operation has its parentheses. -/
theorem written_expr (e : Stencil.Expr) : ExprWritable grids e →
    Written Breaks e.text.toList (fun u : Grammar.Phrase .unary => u.lexemes)
      (fun u => u.tree.Means grids e) := by
  induction e with
  | const v => exact fun h => written_const (h.constants v List.mem_cons_self)
  | point q =>
    intro h
    refine ((written_point (h.points q List.mem_cons_self)).mono fun _ _ => trivial).map ?_
    exact fun p hp => ⟨.plain (.point p), rfl, .point hp⟩
  | binary op lhs rhs ihl ihr =>
    intro h
    have htext : (Stencil.Expr.binary op lhs rhs).text.toList
        = [Symbol.openParen.char] ++ (lhs.text.toList ++ (' ' :: ([(operatorSymbol op).char]
          ++ (' ' :: (rhs.text.toList ++ [Symbol.closeParen.char]))))) := by
      have hsymbol : op.symbol.toList = [(operatorSymbol op).char] := by cases op <;> rfl
      have hsplit := Stencil.Expr.toList_text (.binary op lhs rhs) []
      rw [List.append_nil] at hsplit
      rw [hsplit, Stencil.Expr.lead, Stencil.Expr.afterLead, hsymbol]
      rfl
    rw [htext]
    -- a blank ends the left operand and a parenthesis the right one
    have hclose := (ihr h.operands.2).append (written_symbol .closeParen)
      fun rest _ => breaks_symbol .closeParen rest
    have hoperator := (written_symbol (operatorSymbol op)).append hclose.blank
      fun _ _ => trivial
    have hbody := (ihl h.operands.1).append hoperator.blank
      fun rest _ => breaks_blank _
    refine (((written_symbol .openParen).append hbody fun _ _ => trivial).mono
      fun _ _ => trivial).map ?_
    rintro ⟨openSpan, l, span, r, closeSpan⟩ ⟨_, hl, _, hr, _⟩
    refine ⟨operation openSpan l span r closeSpan op, ?_, ?_⟩
    · rw [lexemes_operation]
      rfl
    · rw [tree_operation]
      exact .binary op _ hl hr

end Stencil.Source
