import Mathlib
import Stencil.Model.Solution
import Stencil.Proofs.Numerals
import Stencil.Proofs.WellFormed

/-!
# Points and expressions can be told from their texts

An expression is written with every operation in parentheses, so that it can be read off the front
of a text: what comes before the first parenthesis or blank is a number, a grid's name, or nothing,
and what ends it says which of the three (`Expr.text_told`). Points are told up to their grids,
which are known by their names.

What comes first is the expression's `lead`, and what comes after it cannot be part of a lead. Two
texts that agree are therefore split at the same place (`split_lead`), and from there on the three
kinds of expressions are compared with each other: a number is followed by the end, a point by its
indices, and an operation has no lead at all.

Two conditions are needed, and both are met by valid solutions (`Expr.Readable`). No constant is a
NaN, whose text does not tell which one it is; and each grid is the one that is known by its name.
-/

namespace Stencil

/-! ## Lists with commas -/

/-- What follows the first of some parts: a comma and a blank, or what closes them. -/
def afterPart (close : List Char) : List String → List Char
  | [] => close
  | t :: ts => ',' :: ' ' :: ((Text.join ", " (t :: ts)).toList ++ close)

/-- Texts with commas between: the first one, and then a comma and a blank before each other one. -/
theorem toList_join_cons (t : String) (ts : List String) (close : List Char) :
    (Text.join ", " (t :: ts)).toList ++ close = t.toList ++ afterPart close ts := by
  cases ts with
  | nil => simp [Text.join, afterPart]
  | cons t' ts => simp [Text.join, afterPart, String.intercalate_cons_cons]

/-! ## Points -/

namespace Point

/-- The characters of an offset after its dimension. -/
def offsetText (o : Int64) : List Char :=
  if o = 0 then [] else if 0 < o.toInt then '+' :: (toString o.toInt).toList
  else (toString o.toInt).toList

theorem toList_indexText (dim : String) (o : Int64) :
    (indexText dim o).toList = dim.toList ++ offsetText o := by
  unfold indexText offsetText
  split_ifs <;> simp

/-- The offset zero is not written, a positive one with a sign, a negative one with its own. -/
theorem offsetText_cases (o : Int64) :
    (o.toInt = 0 ∧ offsetText o = [])
      ∨ (0 < o.toInt ∧ offsetText o = '+' :: Nat.toDigits 10 o.toInt.natAbs)
      ∨ (o.toInt < 0 ∧ offsetText o = '-' :: Nat.toDigits 10 o.toInt.natAbs) := by
  unfold offsetText
  split_ifs with hzero hpos
  · exact Or.inl ⟨by rw [hzero]; rfl, rfl⟩
  · refine Or.inr (Or.inl ⟨hpos, ?_⟩)
    rw [Int.toString_eq_repr, Int.repr_eq_if, if_pos (by omega), Nat.repr_eq_ofList_toDigits,
      String.toList_ofList]
    congr 2
    omega
  -- an offset that is not zero is worth something else than zero
  · have hne : o.toInt ≠ 0 := by
      intro h
      have h' : o.toInt = (0 : Int64).toInt := by rw [h]; rfl
      exact hzero (Int64.toInt_inj.mp h')
    refine Or.inr (Or.inr ⟨by omega, ?_⟩)
    rw [Int.toString_eq_repr, Int.repr_eq_if, if_neg (by omega), Nat.repr_eq_ofList_toDigits]
    simp only [String.toList_append, String.toList_ofList]
    show '-' :: Nat.toDigits 10 (-o.toInt).toNat = '-' :: Nat.toDigits 10 o.toInt.natAbs
    congr 2
    omega

/-- The characters of offsets. -/
def isOffsetChar (c : Char) : Bool := isDigit c || c == '+' || c == '-'

/-- An offset is written with digits and a sign; a comma or a parenthesis is none of these. -/
theorem isOffsetChar_offsetText (o : Int64) : ∀ c ∈ offsetText o, isOffsetChar c = true := by
  have hdigits : ∀ c ∈ Nat.toDigits 10 o.toInt.natAbs, isOffsetChar c = true := by
    intro c hc
    simp [isOffsetChar, isDigit_of_mem_toDigits hc]
  rcases offsetText_cases o with ⟨_, h⟩ | ⟨_, h⟩ | ⟨_, h⟩ <;> rw [h]
  · intro c hc; exact absurd hc List.not_mem_nil
  · exact List.forall_mem_cons.mpr ⟨by decide, hdigits⟩
  · exact List.forall_mem_cons.mpr ⟨by decide, hdigits⟩

theorem toDigits_injective {m n : Nat} (h : Nat.toDigits 10 m = Nat.toDigits 10 n) : m = n := by
  rw [← ofDigits_toDigits m, h, ofDigits_toDigits]

/-- An offset can be told from its text: the sign tells which of three cases it is, the digits the
    rest. -/
theorem offsetText_injective {o o' : Int64} (h : offsetText o = offsetText o') : o = o' := by
  apply Int64.toInt_inj.mp
  rcases offsetText_cases o with ⟨hs, ht⟩ | ⟨hs, ht⟩ | ⟨hs, ht⟩ <;>
    rcases offsetText_cases o' with ⟨hs', ht'⟩ | ⟨hs', ht'⟩ | ⟨hs', ht'⟩ <;>
    rw [ht, ht'] at h
  · omega
  · exact absurd h (by simp)
  · exact absurd h (by simp)
  · exact absurd h (by simp)
  · have habs := toDigits_injective (List.cons.inj h).2
    omega
  · exact absurd (List.cons.inj h).1 (by decide)
  · exact absurd h (by simp)
  · exact absurd (List.cons.inj h).1 (by decide)
  · have habs := toDigits_injective (List.cons.inj h).2
    omega

/-- The texts of indices. -/
def indexTexts (indices : List (Dim × Int64)) : List String :=
  indices.map fun (d, offset) => indexText d.name offset

theorem toList_text (p : Point) (r : List Char) :
    p.text.toList ++ r = p.grid.name.toList
      ++ '(' :: ((Text.join ", " (indexTexts p.indices)).toList ++ ')' :: r) := by
  simp [text, indexTexts]

/-- After an index there is a comma or the closing parenthesis, neither of which is part of an
    offset. -/
theorem afterPart_not_offset (r : List Char) (ts : List String) :
    ∀ c ∈ (afterPart (')' :: r) ts).head?, isOffsetChar c = false := by
  intro c hc
  cases ts with
  | nil =>
    obtain rfl : ')' = c := by simpa [afterPart] using hc
    decide
  | cons t ts =>
    obtain rfl : ',' = c := by simpa [afterPart] using hc
    decide

/-- The offsets of a point can be told from the front of a text, given its dimensions. -/
theorem indices_told (ds : List Dim) : ∀ (os os' : List Int64) (r r' : List Char),
    os.length = ds.length → os'.length = ds.length →
      (Text.join ", " (indexTexts (ds.zip os))).toList ++ ')' :: r
        = (Text.join ", " (indexTexts (ds.zip os'))).toList ++ ')' :: r' → os = os' ∧ r = r' := by
  induction ds with
  | nil =>
    intro os os' r r' hlen hlen' h
    obtain rfl := List.length_eq_zero_iff.mp hlen
    obtain rfl := List.length_eq_zero_iff.mp hlen'
    exact ⟨rfl, (List.cons.inj (List.append_cancel_left h)).2⟩
  | cons d ds ih =>
    intro os os' r r' hlen hlen' h
    match os, os' with
    | [], _ => exact absurd hlen (by simp)
    | _ :: _, [] => exact absurd hlen' (by simp)
    | o :: os, o' :: os' =>
      have hlen : os.length = ds.length := by simpa using hlen
      have hlen' : os'.length = ds.length := by simpa using hlen'
      simp only [List.zip_cons_cons, indexTexts, List.map_cons] at h
      rw [toList_join_cons, toList_join_cons, toList_indexText, toList_indexText, List.append_assoc,
        List.append_assoc] at h
      obtain ⟨hoffset, hafter⟩ := split_run (isOffsetChar_offsetText o) (isOffsetChar_offsetText o')
        (afterPart_not_offset _ _) (afterPart_not_offset _ _) (List.append_cancel_left h)
      rw [offsetText_injective hoffset]
      -- the remaining dimensions are the same, and so is whether there are any
      match ds, os, os' with
      | [], os, os' =>
        obtain rfl := List.length_eq_zero_iff.mp hlen
        obtain rfl := List.length_eq_zero_iff.mp hlen'
        exact ⟨rfl, (List.cons.inj hafter).2⟩
      | _ :: _, [], _ => exact absurd hlen (by simp)
      | _ :: _, _ :: _, [] => exact absurd hlen' (by simp)
      | d' :: ds, o₁ :: os, o₁' :: os' =>
        obtain ⟨hos, hr⟩ := ih _ _ r r' hlen hlen' (List.cons.inj (List.cons.inj hafter).2).2
        exact ⟨by rw [hos], hr⟩

/-- **A point can be told from the front of a text**, given its grid: its name is known, and each
    index is told in turn. -/
theorem text_told {p q : Point} (hgrid : p.grid = q.grid) {r r' : List Char}
    (h : (Text.join ", " (indexTexts p.indices)).toList ++ ')' :: r
      = (Text.join ", " (indexTexts q.indices)).toList ++ ')' :: r') : p = q ∧ r = r' := by
  obtain ⟨grid, offsets, hp⟩ := p
  obtain ⟨grid', offsets', hq⟩ := q
  obtain rfl : grid = grid' := hgrid
  obtain ⟨rfl, hr⟩ := indices_told grid.dims offsets offsets' r r' hp hq h
  exact ⟨rfl, hr⟩

end Point

/-! ## Expressions -/

namespace Expr

/-- The constants, from left to right and as often as they occur. -/
def constants : Expr → List Double
  | const v => [v]
  | point _ => []
  | binary _ lhs rhs => lhs.constants ++ rhs.constants

/-- The points belong to the grids that are found by their names, and the constants are numbers. -/
structure Readable (grid? : String → Option Grid) (e : Expr) : Prop where
  points : ∀ p ∈ e.points, grid? p.grid.name = some p.grid
  constants : ∀ v ∈ e.constants, v.isNaN = false

theorem Readable.lhs {grid? : String → Option Grid} {op : Operator} {l r : Expr}
    (h : (binary op l r).Readable grid?) : l.Readable grid? :=
  ⟨fun p hp => h.points p (List.mem_append_left _ hp),
    fun v hv => h.constants v (List.mem_append_left _ hv)⟩

theorem Readable.rhs {grid? : String → Option Grid} {op : Operator} {l r : Expr}
    (h : (binary op l r).Readable grid?) : r.Readable grid? :=
  ⟨fun p hp => h.points p (List.mem_append_right _ hp),
    fun v hv => h.constants v (List.mem_append_right _ hv)⟩

/-- What follows an expression: nothing, a blank, or a closing parenthesis. -/
def Ends (r : List Char) : Prop := ∀ c ∈ r.head?, c = ' ' ∨ c = ')'

theorem ends_cons {c : Char} (h : c = ' ' ∨ c = ')') (r : List Char) : Ends (c :: r) := by
  intro c' hc'
  obtain rfl : c = c' := by simpa using hc'
  exact h

/-- The characters of numbers and names, and of nothing else in an expression. -/
def isLeadChar (c : Char) : Bool := isLetterOrDigit c || c == '.' || c == '-'

theorem Ends.not_lead {r : List Char} (h : Ends r) : ∀ c ∈ r.head?, isLeadChar c = false := by
  intro c hc
  rcases h c hc with rfl | rfl <;> decide

/-- What stands before the first parenthesis or blank of an expression. -/
def lead : Expr → List Char
  | const v => v.text.toList
  | point p => p.grid.name.toList
  | binary _ _ _ => []

/-- The rest of an expression, and what follows it. -/
def afterLead (r : List Char) : Expr → List Char
  | const _ => r
  | point p => '(' :: ((Text.join ", " (Point.indexTexts p.indices)).toList ++ ')' :: r)
  | binary op lhs rhs =>
    '(' :: (lhs.text.toList ++ ' ' :: (op.symbol.toList ++ ' ' :: (rhs.text.toList ++ ')' :: r)))

theorem toList_text (e : Expr) (r : List Char) : e.text.toList ++ r = e.lead ++ e.afterLead r := by
  cases e with
  | const v => rfl
  | point p => exact p.toList_text r
  | binary op lhs rhs => simp [text, lead, afterLead]

/-- Numbers and names have no blanks and no parentheses, so that a lead ends before either. -/
theorem isLeadChar_lead {grid? : String → Option Grid} {e : Expr} (h : e.Readable grid?) :
    ∀ c ∈ e.lead, isLeadChar c = true := by
  cases e with
  | const v =>
    intro c hc
    have hv : v.isNaN = false := h.constants v List.mem_cons_self
    have hle : v.magnitude ≤ Layout.double.infinity := by simpa [Double.isNaN] using hv
    rw [lead, Double.toList_text v hv] at hc
    rcases List.mem_append.mp hc with hc | hc
    · have hsign : c = '-' := by
        split_ifs at hc
        · exact List.mem_singleton.mp hc
        · exact absurd hc List.not_mem_nil
      rw [hsign]
      decide
    · rcases Double.mem_magnitudeText hle c hc with hc | rfl
      · simp [isLeadChar, hc]
      · decide
  | point p =>
    intro c hc
    obtain ⟨c₀, cs, hname, hc₀, hcs⟩ := p.grid.shape.name
    rw [lead, hname] at hc
    have hclass : isLetterOrDigit c = true := by
      rcases List.mem_cons.mp hc with rfl | hc
      · rw [isLetterOrDigit, (isLetter_iff c).mpr hc₀, Bool.true_or]
      · exact (isLetterOrDigit_iff c).mpr (hcs c hc)
    simp [isLeadChar, hclass]
  | binary op lhs rhs => intro c hc; exact absurd hc List.not_mem_nil

theorem afterLead_not_lead (e : Expr) {r : List Char} (hr : Ends r) :
    ∀ c ∈ (e.afterLead r).head?, isLeadChar c = false := by
  have hopen : ∀ (cs : List Char), ∀ c ∈ ('(' :: cs).head?, isLeadChar c = false := by
    intro cs c hc
    obtain rfl : '(' = c := by simpa using hc
    decide
  cases e with
  | const v => exact hr.not_lead
  | point p => exact hopen _
  | binary op lhs rhs => exact hopen _

/-- Equal texts have equal leads, and what comes after them is equal. -/
theorem split_lead {grid? : String → Option Grid} {e e' : Expr} (he : e.Readable grid?)
    (he' : e'.Readable grid?) {r r' : List Char} (hr : Ends r) (hr' : Ends r')
    (h : e.text.toList ++ r = e'.text.toList ++ r') :
    e.lead = e'.lead ∧ e.afterLead r = e'.afterLead r' := by
  rw [toList_text, toList_text] at h
  exact split_run (isLeadChar_lead he) (isLeadChar_lead he') (e.afterLead_not_lead hr)
    (e'.afterLead_not_lead hr') h

theorem lead_point_ne_nil (p : Point) : (point p).lead ≠ [] := by
  obtain ⟨c, cs, hname, _, _⟩ := p.grid.shape.name
  rw [lead, hname]
  simp

/-- An operand is not followed by an opening parenthesis, so that a number is not mistaken for a
    grid's name. -/
theorem Ends.ne_open {r cs : List Char} (h : Ends r) : r ≠ '(' :: cs := by
  rintro rfl
  exact absurd (h '(' (by simp)) (by decide)

/-- An operator can be told from its symbol, up to the blank after it. -/
theorem symbol_told {op op' : Operator} {cs cs' : List Char}
    (h : op.symbol.toList ++ ' ' :: cs = op'.symbol.toList ++ ' ' :: cs') : op = op' ∧ cs = cs' := by
  cases op <;> cases op' <;> simp_all [Operator.symbol]

/-- **An expression can be told from the front of a text.** -/
theorem text_told {grid? : String → Option Grid} (e : Expr) : ∀ (e' : Expr) (r r' : List Char),
    e.Readable grid? → e'.Readable grid? → Ends r → Ends r' →
      e.text.toList ++ r = e'.text.toList ++ r' → e = e' ∧ r = r' := by
  induction e with
  | const v =>
    intro e' r r' he he' hr hr' h
    obtain ⟨hlead, hafter⟩ := split_lead he he' hr hr' h
    cases e' with
    | const v' =>
      have hv : v = v' := Double.text_injective (he.constants v List.mem_cons_self)
        (he'.constants v' List.mem_cons_self) (String.toList_inj.mp hlead)
      exact ⟨by rw [hv], hafter⟩
    | point p' => exact absurd hafter hr.ne_open
    | binary op' lhs' rhs' => exact absurd hafter hr.ne_open
  | point p =>
    intro e' r r' he he' hr hr' h
    obtain ⟨hlead, hafter⟩ := split_lead he he' hr hr' h
    cases e' with
    | const v' => exact absurd hafter.symm hr'.ne_open
    | point p' =>
      have hgrid : p.grid = p'.grid := by
        have hp := he.points p List.mem_cons_self
        rw [String.toList_inj.mp hlead, he'.points p' List.mem_cons_self] at hp
        -- the names are the same, and a name stands for one grid
        exact (Option.some.inj hp).symm
      obtain ⟨rfl, hrest⟩ := Point.text_told hgrid (List.cons.inj hafter).2
      exact ⟨rfl, hrest⟩
    | binary op' lhs' rhs' => exact absurd hlead (lead_point_ne_nil p)
  -- the left operand ends at the blank before the operator, the right one at the closing
  -- parenthesis
  | binary op lhs rhs ihl ihr =>
    intro e' r r' he he' hr hr' h
    obtain ⟨hlead, hafter⟩ := split_lead he he' hr hr' h
    cases e' with
    | const v' => exact absurd hafter.symm hr'.ne_open
    | point p' => exact absurd hlead.symm (lead_point_ne_nil p')
    | binary op' lhs' rhs' =>
      obtain ⟨rfl, hop⟩ := ihl lhs' _ _ he.lhs he'.lhs (ends_cons (Or.inl rfl) _)
        (ends_cons (Or.inl rfl) _) (List.cons.inj hafter).2
      obtain ⟨rfl, hrhs⟩ := symbol_told (List.cons.inj hop).2
      obtain ⟨rfl, hrest⟩ := ihr rhs' _ _ he.rhs he'.rhs (ends_cons (Or.inr rfl) _)
        (ends_cons (Or.inr rfl) _) hrhs
      exact ⟨rfl, (List.cons.inj hrest).2⟩

end Expr

end Stencil
