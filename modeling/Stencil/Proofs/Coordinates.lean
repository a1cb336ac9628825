import Mathlib
import Stencil.Proofs.ReportPlaces

/-!
# Lines and columns are coordinates

One character on, a position is later: it is one line down, or one column further in its line
(`Position.key_lt_advance`). So positions come in the order of the offsets that they belong to, and no
two offsets have one position. A position can also be counted out: by the line ends before it, and by
the characters since the last of them (`Position.after_eq`). Going down a text by these numbers leads
back to the offset (`offset?_eq_some_iff`).
-/

namespace Stencil.Source

/-! ## The order of positions -/

namespace Position

/-- Positions are ordered by their lines, and in one line by their columns. -/
def key (p : Position) : ℕ ×ₗ ℕ := toLex (p.line, p.column)

/-- **One character on is later**: further along the line, or on the next line. -/
theorem key_lt_advance (p : Position) (c : Char) : p.key < (p.advance c).key := by
  unfold key advance
  rw [Prod.Lex.toLex_lt_toLex]
  by_cases hc : c = '\n'
  · rw [if_pos hc]
    exact Or.inl (Nat.lt_succ_self _)
  · rw [if_neg hc]
    exact Or.inr ⟨rfl, Nat.lt_succ_self _⟩

theorem key_le_foldl (cs : List Char) : ∀ p : Position, p.key ≤ (cs.foldl advance p).key := by
  induction cs with
  | nil => exact fun p => le_refl _
  | cons c cs ih => exact fun p => (p.key_lt_advance c).le.trans (ih (p.advance c))

/-- **What stands further on in a text is later.** -/
theorem key_after_lt (before : List Char) {cs : List Char} (h : cs ≠ []) :
    (after before).key < (after (before ++ cs)).key := by
  obtain ⟨c, cs, rfl⟩ := List.exists_cons_of_ne_nil h
  unfold after
  rw [List.foldl_append, List.foldl_cons]
  exact (key_lt_advance _ c).trans_le (key_le_foldl cs _)

end Position

/-! ## Counting -/

/-- The characters since the last line end, or since the start. -/
def lastLine (cs : List Char) : List Char := cs.rtakeWhile (· ≠ '\n')

/-- **What a position counts**: the line ends before it, and the characters since the last one. -/
theorem Position.after_eq (cs : List Char) :
    after cs = ⟨1 + cs.count '\n', 1 + (lastLine cs).length⟩ := by
  induction cs using List.reverseRecOn with
  | nil => rfl
  | append_singleton cs c ih =>
    have hafter : after (cs ++ [c]) = (after cs).advance c := by
      unfold after
      rw [List.foldl_append]
      rfl
    rw [hafter, ih, advance, List.count_append, lastLine, lastLine]
    by_cases hc : c = '\n'
    · rw [if_pos hc, List.rtakeWhile_concat_neg _ _ _ (by simpa using hc), hc]
      rfl
    · rw [if_neg hc, List.rtakeWhile_concat_pos _ _ _ (by simpa using hc), List.length_append,
        List.count_singleton, if_neg (by simpa using hc)]
      rfl

/-- A character in front belongs to the last line if there is no other one. -/
theorem lastLine_cons (c : Char) (cs : List Char) :
    lastLine (c :: cs) = if c ≠ '\n' ∧ '\n' ∉ cs then c :: lastLine cs else lastLine cs := by
  induction cs using List.reverseRecOn with
  | nil => by_cases hc : c = '\n' <;> simp [lastLine, List.rtakeWhile, hc]
  | append_singleton cs d ih =>
    unfold lastLine at ih ⊢
    rw [← List.cons_append]
    by_cases hd : d = '\n'
    · rw [List.rtakeWhile_concat_neg _ _ _ (by simpa using hd),
        List.rtakeWhile_concat_neg _ _ _ (by simpa using hd), if_neg (by simp [hd])]
    · rw [List.rtakeWhile_concat_pos _ _ _ (by simpa using hd),
        List.rtakeWhile_concat_pos _ _ _ (by simpa using hd), ih]
      have hmem : '\n' ∈ cs ++ [d] ↔ '\n' ∈ cs := by simp [Ne.symm hd]
      simp only [hmem]
      split_ifs <;> rfl

/-! ## Going down a text -/

/-- The offset that is the given number of lines down, and then the given number of characters on in
    its line. -/
def offsetDown : List Char → Nat → Nat → Option Nat
  | _, 0, 0 => some 0
  | [], _, _ => none
  | c :: cs, 0, columns + 1 =>
    if c = '\n' then none else (offsetDown cs 0 columns).map (c.utf8Size + ·)
  | c :: cs, lines + 1, columns =>
    (offsetDown cs (if c = '\n' then lines else lines + 1) columns).map (c.utf8Size + ·)

/-- The offset of a position in a text, if it has one. -/
def offset? (source : String) (p : Position) : Option Nat :=
  if p.line = 0 ∨ p.column = 0 then none
  else offsetDown source.toList (p.line - 1) (p.column - 1)

theorem offsetDown_append (before rest : List Char) :
    offsetDown (before ++ rest) (before.count '\n') (lastLine before).length
      = some (byteLength before) := by
  induction before with
  | nil => simp [lastLine, offsetDown, byteLength]
  | cons c before ih =>
    have hlength : byteLength (c :: before) = c.utf8Size + byteLength before := rfl
    rw [lastLine_cons, List.cons_append, hlength]
    by_cases hc : c = '\n'
    · rw [if_neg (by simp [hc]), hc, List.count_cons_self, offsetDown, if_pos rfl, ih]
      rfl
    -- the first character counts for the column only on the way along the last line
    rw [List.count_cons_of_ne hc]
    by_cases hmem : '\n' ∈ before
    · obtain ⟨n, hn⟩ := Nat.exists_eq_add_one.mpr (List.count_pos_iff.mpr hmem)
      rw [hn] at ih
      rw [if_neg (by simp [hmem]), hn, offsetDown, if_neg hc, ih]
      rfl
    · rw [List.count_eq_zero.mpr hmem] at ih ⊢
      rw [if_pos ⟨hc, hmem⟩, List.length_cons, offsetDown, if_neg hc, ih]
      rfl

/-- One character further along the same text. -/
theorem exists_cons_append {c : Char} {cs : List Char} {lines columns a : Nat}
    (h : ∃ before rest, cs = before ++ rest ∧ byteLength before = a
      ∧ (c :: before).count '\n' = lines ∧ (lastLine (c :: before)).length = columns) :
    ∃ before rest, c :: cs = before ++ rest ∧ byteLength before = c.utf8Size + a
      ∧ before.count '\n' = lines ∧ (lastLine before).length = columns := by
  obtain ⟨before, rest, rfl, rfl, hlines, hcolumns⟩ := h
  exact ⟨c :: before, rest, rfl, rfl, hlines, hcolumns⟩

theorem exists_append_of_offsetDown {cs : List Char} {lines columns a : Nat}
    (h : offsetDown cs lines columns = some a) :
    ∃ before rest, cs = before ++ rest ∧ byteLength before = a ∧ before.count '\n' = lines
      ∧ (lastLine before).length = columns := by
  fun_induction offsetDown cs lines columns generalizing a with
  | case1 cs =>
    obtain rfl := Option.some.inj h
    exact ⟨[], cs, rfl, rfl, rfl, by simp [lastLine]⟩
  | case2 => cases h
  | case3 => cases h
  | case4 c cs columns hc ih =>
    obtain ⟨b, hb, rfl⟩ := Option.map_eq_some_iff.mp h
    obtain ⟨before, rest, htext, hlength, hlines, hcolumns⟩ := ih hb
    have hmem : '\n' ∉ before := List.count_eq_zero.mp hlines
    refine exists_cons_append ⟨before, rest, htext, hlength, ?_, ?_⟩
    · rw [List.count_cons_of_ne hc, hlines]
    · rw [lastLine_cons, if_pos ⟨hc, hmem⟩, List.length_cons, hcolumns]
  | case5 c cs lines columns ih =>
    obtain ⟨b, hb, rfl⟩ := Option.map_eq_some_iff.mp h
    obtain ⟨before, rest, htext, hlength, hlines, hcolumns⟩ := ih hb
    refine exists_cons_append ⟨before, rest, htext, hlength, ?_, ?_⟩
    · by_cases hc : c = '\n'
      · rw [if_pos hc] at hlines
        rw [hc, List.count_cons_self, hlines]
      · rw [if_neg hc] at hlines
        rw [List.count_cons_of_ne hc, hlines]
    · rw [lastLine_cons, if_neg, hcolumns]
      rintro ⟨hc, hmem⟩
      -- there is a line still to go down, so a line end is ahead
      rw [if_neg hc, List.count_eq_zero.mpr hmem] at hlines
      omega

/-! ## Offsets of a text -/

section Offsets

variable {source : String}

/-- The boundaries of characters are where a text can be cut in two. -/
theorem isValid_iff_exists_toList {a : Nat} :
    (⟨a⟩ : String.Pos.Raw).IsValid source
      ↔ ∃ before rest, source.toList = before ++ rest ∧ byteLength before = a := by
  constructor
  · intro h
    obtain ⟨before, rest, rfl, ha⟩ := String.Pos.Raw.isValid_iff_exists_append.mp h
    refine ⟨before.toList, rest.toList, String.toList_append, ?_⟩
    rw [byteLength_toList]
    exact (congrArg String.Pos.Raw.byteIdx ha).symm
  · rintro ⟨before, rest, htext, rfl⟩
    exact boundary_of_append htext

theorem position?_of_append {before rest : List Char} (h : source.toList = before ++ rest) :
    position? source (byteLength before) = some (.after before) := by
  rw [position?, h, charsBefore?_append]
  rfl

theorem charsBefore?_of_le (cs : List Char) : ∀ {n : Nat}, byteLength cs ≤ n →
    charsBefore? cs n = some cs := by
  induction cs with
  | nil =>
    intro n _
    cases n <;> rfl
  | cons c cs ih =>
    intro n hle
    have hlength : byteLength (c :: cs) = c.utf8Size + byteLength cs := rfl
    have hc := c.utf8Size_pos
    obtain ⟨m, rfl⟩ := Nat.exists_eq_add_one.mpr (show 0 < n by omega)
    rw [charsBefore?, if_neg (by omega), ih (by omega)]
    rfl

/-- **Past the end of a text is its end.** -/
theorem position?_of_le {n : Nat} (h : source.utf8ByteSize ≤ n) :
    position? source n = some (.after source.toList) := by
  rw [position?, charsBefore?_of_le _ (by rwa [byteLength_toList])]
  rfl

/-- Of two cuts of one text, the longer front is the shorter one and more. -/
theorem exists_append_of_byteLength_lt {before rest before' rest' : List Char}
    (htext : before ++ rest = before' ++ rest') (hlt : byteLength before < byteLength before') :
    ∃ cs, cs ≠ [] ∧ before' = before ++ cs := by
  rcases List.append_eq_append_iff.mp htext with ⟨cs, rfl, _⟩ | ⟨cs, rfl, _⟩
  · refine ⟨cs, ?_, rfl⟩
    rintro rfl
    rw [List.append_nil] at hlt
    exact absurd hlt (Nat.lt_irrefl _)
  · rw [byteLength_append] at hlt
    omega

/-- **Going down a text finds the offset of a position**, where there is one. -/
theorem offset?_eq_some_iff (p : Position) (a : Nat) :
    offset? source p = some a
      ↔ (⟨a⟩ : String.Pos.Raw).IsValid source ∧ position? source a = some p := by
  unfold offset?
  constructor
  · intro h
    split_ifs at h with hzero
    obtain ⟨before, rest, htext, rfl, hlines, hcolumns⟩ := exists_append_of_offsetDown h
    refine ⟨boundary_of_append htext, ?_⟩
    have hline : 1 + (p.line - 1) = p.line := by omega
    have hcolumn : 1 + (p.column - 1) = p.column := by omega
    rw [position?_of_append htext, Position.after_eq, hlines, hcolumns, hline, hcolumn]
  · rintro ⟨hvalid, hposition⟩
    obtain ⟨before, rest, htext, rfl⟩ := isValid_iff_exists_toList.mp hvalid
    rw [position?_of_append htext, Position.after_eq] at hposition
    obtain rfl := Option.some.inj hposition
    rw [if_neg (by simp), htext, Nat.add_sub_cancel_left, Nat.add_sub_cancel_left]
    exact offsetDown_append before rest

end Offsets

/-- **Lines and columns are coordinates of a text.** Every boundary of characters has a position: its
    line is one more than the line ends before it, and its column one more than the characters since the
    last line end. Positions come in the order of boundaries, by lines and then by columns. Past the end
    of a text the position is that of its end. A boundary is found again from its position, and from no
    other one. -/
theorem positions_are_coordinates (source : String) :
    (∀ a, (⟨a⟩ : String.Pos.Raw).IsValid source →
      ∃ before rest : String, source = before ++ rest ∧ before.utf8ByteSize = a
        ∧ position? source a
            = some ⟨1 + before.toList.count '\n', 1 + (lastLine before.toList).length⟩)
    ∧ (∀ a b, (⟨a⟩ : String.Pos.Raw).IsValid source → (⟨b⟩ : String.Pos.Raw).IsValid source →
        a < b → ∃ p q, position? source a = some p ∧ position? source b = some q ∧ p.key < q.key)
    ∧ (∀ n, source.utf8ByteSize ≤ n → position? source n = position? source source.utf8ByteSize)
    ∧ ∀ p a, offset? source p = some a
        ↔ (⟨a⟩ : String.Pos.Raw).IsValid source ∧ position? source a = some p := by
  refine ⟨?_, ?_, ?_, offset?_eq_some_iff⟩
  · intro a ha
    obtain ⟨before, rest, htext, rfl⟩ := isValid_iff_exists_toList.mp ha
    refine ⟨.ofList before, .ofList rest, ?_, (byteLength_eq before).symm, ?_⟩
    · rw [← String.ofList_append, ← htext, String.ofList_toList]
    · rw [position?_of_append htext, Position.after_eq, String.toList_ofList]
  · intro a b ha hb hlt
    obtain ⟨before, rest, htext, rfl⟩ := isValid_iff_exists_toList.mp ha
    obtain ⟨before', rest', htext', rfl⟩ := isValid_iff_exists_toList.mp hb
    -- both are fronts of one text, so that the longer one goes on from the shorter one
    obtain ⟨cs, hne, rfl⟩ := exists_append_of_byteLength_lt (htext.symm.trans htext') hlt
    exact ⟨_, _, position?_of_append htext, position?_of_append htext',
      Position.key_after_lt before hne⟩
  · intro n hle
    rw [position?_of_le hle, position?_of_le (Nat.le_refl _)]

/-- Down a line the column goes back; the character before the line end has two bytes. -/
theorem positions_are_coordinates_accent :
    (∃ p q, position? "aé\nb" 3 = some p ∧ position? "aé\nb" 4 = some q ∧ p.key < q.key
      ∧ p = ⟨1, 3⟩ ∧ q = ⟨2, 1⟩)
    ∧ offset? "aé\nb" ⟨1, 3⟩ = some 3 ∧ position? "aé\nb" 2 = none
    ∧ position? "aé\nb" 9 = position? "aé\nb" 5 := by
  obtain ⟨_, horder, hend, hback⟩ := positions_are_coordinates "aé\nb"
  have hvalid : ∀ before rest : List Char, "aé\nb".toList = before ++ rest →
      (⟨byteLength before⟩ : String.Pos.Raw).IsValid "aé\nb" := fun _ _ h => boundary_of_append h
  have hthree := hvalid ['a', 'é'] ['\n', 'b'] (by decide)
  have hfour := hvalid ['a', 'é', '\n'] ['b'] (by decide)
  obtain ⟨p, q, hp, hq, hlt⟩ := horder 3 4 hthree hfour (by decide)
  have hp' : position? "aé\nb" 3 = some ⟨1, 3⟩ := by decide
  have hq' : position? "aé\nb" 4 = some ⟨2, 1⟩ := by decide
  refine ⟨⟨p, q, hp, hq, hlt, ?_, ?_⟩, (hback _ _).mpr ⟨hthree, hp'⟩, by decide,
    hend 9 (by decide)⟩
  · exact Option.some.inj (hp.symm.trans hp')
  · exact Option.some.inj (hq.symm.trans hq')

end Stencil.Source
