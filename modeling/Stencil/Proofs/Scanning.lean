import Mathlib
import Stencil.Proofs.Grammar
import Stencil.Proofs.Numerals
import Stencil.Proofs.WellFormed
import Stencil.Source.Scan

/-!
# What scanning gives

The names among the tokens of a text are identifiers (`identifier_of_mem_scan`), and so are the
names in every derivation of these tokens. The numbers among them have no sign
(`not_negative_of_mem_scan`).

The *outline* of a text is its tokens and strays, without the blanks and without the places. It is
computed from the front of the text: a symbol or a blank is cut off whatever follows it, a word or a
numeral if what follows cannot extend it. A text whose outline has no strays is scanned to the tokens
of its outline (`scan_of_outline`).
-/

namespace Stencil.Source

/-! ## Tokens of a text -/

theorem mem_of_mem_locate {p : Piece} {span : Span} {ps : List Piece} :
    ∀ {start : Nat}, (p, span) ∈ locate start ps → p ∈ ps := by
  induction ps with
  | nil => intro start h; exact absurd h List.not_mem_nil
  | cons p' ps ih =>
    intro start h
    rcases List.mem_cons.mp h with h | h
    · rw [(Prod.mk.inj h).1]
      exact List.mem_cons_self
    · exact List.mem_cons_of_mem _ (ih h)

/-- What holds of every token that can be cut off the front of a text holds of all its pieces. -/
theorem forall_mem_pieces {P : Token → List Char → Prop}
    (hfirst : ∀ c cs t text, (firstPiece c cs).1 = .token t text → P t text) {cs : List Char}
    {t : Token} {text : List Char} (h : .token t text ∈ pieces cs) : P t text := by
  induction cs using pieces.induct with
  | case1 => rw [pieces] at h; exact absurd h List.not_mem_nil
  | case2 c cs ih =>
    rw [pieces] at h
    rcases List.mem_cons.mp h with h | h
    · exact hfirst c cs t text h.symm
    · exact ih h

/-- What holds of every token that can be cut off the front of a text holds of all its tokens. -/
theorem forall_mem_scan {P : Token → Prop}
    (hfirst : ∀ c cs t text, (firstPiece c cs).1 = .token t text → P t) {source : String}
    {x : Lexeme} (hx : x ∈ (scan source).lexemes) : P x.token := by
  obtain ⟨⟨p, span⟩, hmem, hp⟩ := List.mem_filterMap.mp hx
  cases p with
  | blank text => exact absurd hp (by simp [lexeme?])
  | stray c => exact absurd hp (by simp [lexeme?])
  | token t text =>
    simp only [lexeme?, Option.some.injEq] at hp
    subst hp
    exact forall_mem_pieces (P := fun t _ => P t) hfirst (mem_of_mem_locate hmem)

/-! ## Names -/

/-- A word is the name that it spells, or a reserved word. -/
theorem eq_of_wordToken_eq_ident {word name : String} (h : wordToken word = .ident name) :
    word = name := by
  unfold wordToken at h
  split at h
  · exact absurd h (by simp)
  · injection h

theorem wordToken_keyword (k : Keyword) : wordToken k.text = .keyword k := by
  cases k <;> rfl

theorem wordToken_ne_number (word : String) (v : Double) : wordToken word ≠ .number v := by
  unfold wordToken
  split <;> simp

/-- A name that is cut off the front of a text is an identifier. -/
theorem identifier_of_firstPiece {c : Char} {cs text : List Char} {name : String}
    (h : (firstPiece c cs).1 = .token (.ident name) text) : IsIdentifier name := by
  unfold firstPiece run at h
  split at h
  · exact absurd h (by simp)
  split at h
  · exact absurd h (by simp)
  split at h
  · rename_i hletter
    simp only [Piece.token.injEq] at h
    rw [← eq_of_wordToken_eq_ident h.1, ← isIdentifier_iff, isIdentifier, String.toList_ofList]
    simp only [hletter, Bool.true_and]
    exact List.all_takeWhile
  split at h <;> exact absurd h (by simp)

/-- **The names among the tokens of a text are identifiers.** -/
theorem identifier_of_mem_scan {source : String} {x : Lexeme} {name : String}
    (hx : x ∈ (scan source).lexemes) (hname : x.token = .ident name) : IsIdentifier name := by
  refine forall_mem_scan (P := fun t => ∀ name, t = .ident name → IsIdentifier name) ?_ hx name hname
  rintro c cs t text h name rfl
  exact identifier_of_firstPiece h

/-! ## Numbers -/

/-- A number that is cut off the front of a text is what the numeral there is read as. -/
theorem numeral_of_firstPiece {c : Char} {cs text : List Char} {v : Double}
    (h : (firstPiece c cs).1 = .token (.number v) text) :
    ∃ n rest, Numeral.take (c :: cs) = some (n, rest) ∧ n.text = text
      ∧ n.value.toDouble false = v := by
  unfold firstPiece run at h
  split at h
  · exact absurd h (by simp)
  split at h
  · exact absurd h (by simp)
  split at h
  · simp only [Piece.token.injEq] at h
    exact absurd h.1 (wordToken_ne_number _ v)
  split at h
  · exact absurd h (by simp)
  · rename_i n rest _ htake
    simp only [Piece.token.injEq, Token.number.injEq] at h
    exact ⟨n, rest, htake, h.2, h.1⟩
  · exact absurd h (by simp)

/-- A number that is cut off the front of a text has no sign. -/
theorem not_negative_of_firstPiece {c : Char} {cs text : List Char} {v : Double}
    (h : (firstPiece c cs).1 = .token (.number v) text) : v.isNegative = false := by
  obtain ⟨n, _, _, _, rfl⟩ := numeral_of_firstPiece h
  exact Double.isNegative_ofMagnitude false
    ((n.value.nearest_le_infinity .double).trans_lt Double.infinity_lt_signBit)

/-- **The numbers among the tokens of a text have no sign**: a minus is a token of its own. -/
theorem not_negative_of_mem_scan {source : String} {x : Lexeme} {v : Double}
    (hx : x ∈ (scan source).lexemes) (hv : x.token = .number v) : v.isNegative = false := by
  refine forall_mem_scan (P := fun t => ∀ v, t = .number v → v.isNegative = false) ?_ hx v hv
  rintro c cs t text h v rfl
  exact not_negative_of_firstPiece h

/-! ## Names in derivations -/

namespace Grammar

theorem mem_listLexemes {id : Ident} {ids : Option (Separated Ident)} (h : id ∈ listItems ids) :
    id.lexeme ∈ listLexemes (fun n => [n.lexeme]) ids := by
  cases ids with
  | none => exact absurd h List.not_mem_nil
  | some s =>
    obtain ⟨first, rest⟩ := s
    simp only [listItems, Separated.items, List.mem_cons, List.mem_map] at h
    simp only [listLexemes, Separated.lexemes, Separated.restLexemes, List.mem_append,
      List.mem_singleton, List.mem_flatMap]
    rcases h with rfl | ⟨⟨span, id'⟩, hmem, rfl⟩
    · exact Or.inl rfl
    · exact Or.inr ⟨(span, id'), hmem, by simp⟩

end Grammar

/-! ## Outlines -/

/-- What a piece is to the parser: nothing, a token, or a stray character. -/
def Piece.mark? : Piece → Option (Option Token)
  | blank _ => none
  | token t _ => some (some t)
  | stray _ => some none

/-- The tokens and the strays of a text. -/
def outline (cs : List Char) : List (Option Token) := (pieces cs).filterMap Piece.mark?

theorem outline_nil : outline [] = [] := by rw [outline, pieces]; rfl

/-- What is read off the pieces is read off the first piece and then off those of the rest. -/
theorem filterMap_pieces_cons {β : Type} (f : Piece → Option β) (c : Char) (cs : List Char) :
    (pieces (c :: cs)).filterMap f
      = (f (firstPiece c cs).1).toList ++ (pieces (firstPiece c cs).2).filterMap f := by
  rw [pieces, List.filterMap_cons]
  cases f (firstPiece c cs).1 with
  | none => rfl
  | some b => rfl

theorem outline_cons (c : Char) (cs : List Char) :
    outline (c :: cs) = (firstPiece c cs).1.mark?.toList ++ outline (firstPiece c cs).2 :=
  filterMap_pieces_cons Piece.mark? c cs

/-! ### Blanks and symbols -/

/-- A blank changes nothing where nothing is read off blanks. -/
theorem filterMap_pieces_blank {β : Type} {f : Piece → Option β}
    (hf : ∀ text, f (.blank text) = none) {c : Char} (hc : isBlank c = true) (cs : List Char) :
    (pieces (c :: cs)).filterMap f = (pieces cs).filterMap f := by
  have hrun : ∀ {c : Char}, isBlank c = true → ∀ cs,
      (pieces (c :: cs)).filterMap f = (pieces (cs.dropWhile isBlank)).filterMap f := by
    intro c hc cs
    rw [filterMap_pieces_cons, firstPiece, if_pos hc]
    simp only [run, hf, Option.toList_none, List.nil_append]
  rw [hrun hc]
  cases cs with
  | nil => rfl
  | cons c' cs =>
    by_cases hc' : isBlank c' = true
    · rw [List.dropWhile_cons_of_pos hc', hrun hc']
    · rw [List.dropWhile_cons_of_neg hc']

theorem outline_blank {c : Char} (hc : isBlank c = true) (cs : List Char) :
    outline (c :: cs) = outline cs :=
  filterMap_pieces_blank (fun _ => rfl) hc cs

theorem outline_blanks {gap : List Char} (hgap : ∀ c ∈ gap, isBlank c = true) (cs : List Char) :
    outline (gap ++ cs) = outline cs := by
  induction gap with
  | nil => rfl
  | cons c gap ih =>
    obtain ⟨hc, hgap⟩ := List.forall_mem_cons.mp hgap
    rw [List.cons_append, outline_blank hc, ih hgap]

theorem firstPiece_symbol (s : Symbol) (cs : List Char) :
    firstPiece s.char cs = (.token (.symbol s) [s.char], cs) := by
  cases s <;> rfl

theorem outline_symbol (s : Symbol) (cs : List Char) :
    outline (s.char :: cs) = some (.symbol s) :: outline cs := by
  rw [outline_cons, firstPiece_symbol]
  rfl

/-! ### Words -/

theorem not_blank_of_letter {c : Char} (h : isLetter c = true) : isBlank c = false ∧ c ≠ '#' := by
  constructor
  · by_contra hc
    simp only [isBlank, Bool.not_eq_false, Bool.or_eq_true, beq_iff_eq] at hc
    rcases hc with ((rfl | rfl) | rfl) | rfl <;> exact absurd h (by decide)
  · rintro rfl
    exact absurd h (by decide)

/-- **A word is one token** where what follows cannot extend it. -/
theorem outline_word {word : String} (hword : IsIdentifier word) {rest : List Char}
    (hrest : Breaks rest) :
    outline (word.toList ++ rest) = some (wordToken word) :: outline rest := by
  obtain ⟨c, cs, hlist, hc, hcs⟩ := hword
  have hletter : isLetter c = true := (isLetter_iff c).mpr hc
  obtain ⟨hblank, hcomment⟩ := not_blank_of_letter hletter
  obtain ⟨htake, hdrop⟩ := takeWhile_run (fun d hd => (isLetterOrDigit_iff d).mpr (hcs d hd))
    (fun d hd => (hrest d hd).1)
  rw [hlist, List.cons_append, outline_cons, firstPiece, hblank, if_neg (by simp), if_neg hcomment,
    if_pos hletter]
  simp only [run, htake, hdrop, ← hlist, String.ofList_toList]
  rfl

/-! ### Numerals -/

theorem of_isDigit {c : Char} (h : isDigit c = true) :
    isBlank c = false ∧ c ≠ '#' ∧ isLetter c = false ∧ Symbol.ofChar? c = none := by
  refine ⟨?_, ?_, ?_, ?_⟩
  · by_contra hc
    simp only [isBlank, Bool.not_eq_false, Bool.or_eq_true, beq_iff_eq] at hc
    rcases hc with ((rfl | rfl) | rfl) | rfl <;> exact absurd h (by decide)
  · rintro rfl
    exact absurd h (by decide)
  · by_contra hc
    simp only [isLetter, isDigit, Bool.not_eq_false, Bool.or_eq_true, Bool.and_eq_true,
      decide_eq_true_eq, beq_iff_eq, Char.le_def, UInt32.le_iff_toNat_le] at h hc
    rcases hc with (hc | hc) | rfl
    · exact absurd (hc.1.trans h.2) (by decide)
    · exact absurd (hc.1.trans h.2) (by decide)
    · exact absurd h.2 (by decide)
  · rw [Symbol.ofChar?, List.find?_eq_none]
    rintro s _ hs
    obtain rfl : s.char = c := by simpa using hs
    cases s <;> exact absurd h (by decide)

/-- **A numeral is one token** where what follows cannot extend it. -/
theorem outline_numeral {n : Numeral} (hn : n.Plain) {rest : List Char} (hrest : Breaks rest) :
    outline (n.text ++ rest) = some (.number (n.value.toDouble false)) :: outline rest := by
  have htake := Numeral.take_text hn hrest
  obtain ⟨c, cs, hwhole⟩ := List.exists_cons_of_ne_nil hn.nonempty
  obtain ⟨hblank, hcomment, hletter, hsymbol⟩ := of_isDigit (hn.whole c (by rw [hwhole]; simp))
  have htext : n.text ++ rest = c :: (cs ++ Numeral.fractionText n.fraction
      ++ (n.power.map Numeral.Power.text).getD [] ++ rest) := by
    simp [Numeral.text, hwhole]
  rw [htext] at htake ⊢
  rw [outline_cons, firstPiece, hblank, if_neg (by simp), if_neg hcomment, hletter,
    if_neg (by simp), hsymbol, htake]
  rfl

/-! ### Scans -/

theorem locate_of_mark (ps : List Piece) : ∀ (start : Nat) (ts : List Token),
    ps.filterMap Piece.mark? = ts.map some →
      ((locate start ps).filterMap lexeme?).map Lexeme.token = ts
        ∧ (locate start ps).filterMap stray? = [] := by
  induction ps with
  | nil =>
    intro start ts h
    obtain rfl : ts = [] := by simpa using h.symm
    exact ⟨rfl, rfl⟩
  | cons p ps ih =>
    intro start ts h
    cases p with
    -- a blank moves the places that follow and leaves no token
    | blank text => exact ih _ ts h
    | token t text =>
      cases ts with
      | nil => exact absurd h (by simp [Piece.mark?])
      | cons t' ts =>
        simp only [Piece.mark?, List.filterMap_cons, List.map_cons, List.cons.injEq,
          Option.some.injEq] at h
        obtain ⟨rfl, h⟩ := h
        obtain ⟨hlexemes, hstrays⟩ := ih (start + byteLength text) ts h
        refine ⟨?_, hstrays⟩
        show t :: ((locate _ ps).filterMap lexeme?).map Lexeme.token = t :: ts
        exact congrArg (t :: ·) hlexemes
    | stray c =>
      cases ts with
      | nil => exact absurd h (by simp [Piece.mark?])
      | cons t ts => exact absurd h (by simp [Piece.mark?])

/-- **A text whose outline has no strays is scanned to the tokens of its outline.** -/
theorem scan_of_outline {source : String} {ts : List Token}
    (h : outline source.toList = ts.map some) :
    (scan source).lexemes.map Lexeme.token = ts ∧ (scan source).strays = [] :=
  locate_of_mark _ 0 ts h

end Stencil.Source
