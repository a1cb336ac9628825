import Mathlib
import Stencil.Proofs.FrontEnd
import Stencil.Proofs.Patterns

/-!
# Scanning tiles the text

The tokens and the stray characters of a text, taken in the order of their places, are its *marks*.
They do not overlap, none is empty, and each one ends where a character ends. What lies between two
marks is only blanks and comments. Every mark is the longest match from its start (`scan_tiles`).

The proof goes over the pieces of a text. A stretch of it is given by the characters before it, in
it and after it (`Span.Cuts`), so that lengths in bytes come in only where two stretches are
compared.

The pieces are what the scanner cuts the text into, blanks included, and they tile it by their
making. The marks are the pieces that are tokens or strays. What is said of a mark is therefore said
of its piece first (`cuts_of_mem_locate`), and what is said of gaps is an induction over the pieces,
in which the gap at hand is kept open until the next mark closes it (`gap_of_pending`).
-/

namespace Stencil.Source

/-! ## Lengths in bytes -/

theorem byteLength_append (cs cs' : List Char) :
    byteLength (cs ++ cs') = byteLength cs + byteLength cs' := by
  induction cs with
  | nil => exact (Nat.zero_add _).symm
  | cons c cs ih =>
    show c.utf8Size + byteLength (cs ++ cs') = c.utf8Size + byteLength cs + byteLength cs'
    rw [ih, Nat.add_assoc]

theorem byteLength_eq (cs : List Char) : byteLength cs = (String.ofList cs).utf8ByteSize := by
  induction cs with
  | nil => rfl
  | cons c cs ih =>
    have hcons : String.ofList (c :: cs) = String.singleton c ++ String.ofList cs := by
      rw [String.singleton_eq_ofList, ← String.ofList_append]
      rfl
    rw [hcons, String.utf8ByteSize_append, String.utf8ByteSize_singleton, ← ih]
    rfl

theorem byteLength_toList (source : String) : byteLength source.toList = source.utf8ByteSize := by
  rw [byteLength_eq, String.ofList_toList]

theorem byteLength_pos {cs : List Char} (h : cs ≠ []) : 0 < byteLength cs := by
  obtain ⟨c, cs, rfl⟩ := List.exists_cons_of_ne_nil h
  have hc := c.utf8Size_pos
  show 0 < c.utf8Size + byteLength cs
  omega

/-! ## Stretches of a text -/

namespace Span

/-- The span is the bytes of `slice`, with `before` before it and `rest` after it. -/
structure Cuts (span : Span) (source : String) (before slice rest : List Char) : Prop where
  text : source.toList = before ++ (slice ++ rest)
  start : span.start = byteLength before
  stop : span.stop = span.start + byteLength slice

/-- The span lies in the text, and both its ends are boundaries of characters. -/
structure Within (span : Span) (source : String) : Prop where
  ordered : span.start ≤ span.stop
  inside : span.stop ≤ source.utf8ByteSize
  start_boundary : (⟨span.start⟩ : String.Pos.Raw).IsValid source
  stop_boundary : (⟨span.stop⟩ : String.Pos.Raw).IsValid source

/-- The byte is one of the span's. -/
def Holds (span : Span) (n : Nat) : Prop := span.start ≤ n ∧ n < span.stop

end Span

/-- The end of some first characters of a text is a boundary between characters. -/
theorem boundary_of_append {source : String} {before rest : List Char}
    (h : source.toList = before ++ rest) :
    (⟨byteLength before⟩ : String.Pos.Raw).IsValid source := by
  rw [String.Pos.Raw.isValid_iff_exists_append]
  refine ⟨String.ofList before, String.ofList rest, ?_, ?_⟩
  · rw [← String.ofList_append, ← h, String.ofList_toList]
  · rw [byteLength_eq]
    rfl

theorem Span.Cuts.within {span : Span} {source : String} {before slice rest : List Char}
    (h : span.Cuts source before slice rest) : span.Within source := by
  have hstop : span.stop = byteLength (before ++ slice) := by
    rw [byteLength_append, ← h.start]
    exact h.stop
  have htext : source.toList = (before ++ slice) ++ rest := by
    rw [h.text, List.append_assoc]
  refine ⟨by rw [h.stop]; omega, ?_, ?_, ?_⟩
  · rw [← byteLength_toList, htext, byteLength_append, hstop]
    omega
  · rw [h.start]
    exact boundary_of_append h.text
  · rw [hstop]
    exact boundary_of_append htext

/-- **Every piece of a text is a stretch of it, and is what it is taken for.** -/
theorem cuts_of_mem_locate {source : String} {q : Piece × Span} (cs : List Char) :
    ∀ before, source.toList = before ++ cs → q ∈ locate (byteLength before) (pieces cs) →
      ∃ before' rest, q.2.Cuts source before' q.1.text rest ∧ q.1.Fits rest := by
  induction cs using pieces.induct with
  | case1 =>
    intro before _ hq
    rw [pieces] at hq
    exact absurd hq List.not_mem_nil
  | case2 c cs ih =>
    intro before htext hq
    rw [pieces] at hq
    rw [← firstPiece_append c cs] at htext
    rcases List.mem_cons.mp hq with rfl | hq
    · exact ⟨before, _, ⟨htext, rfl, rfl⟩, firstPiece_fits c cs⟩
    · apply ih (before ++ (firstPiece c cs).1.text)
      · rw [htext, List.append_assoc]
      · rw [byteLength_append]
        exact hq

/-! ## Marks -/

/-- What stands out in a text: a token or a stray character. -/
inductive Mark where
  | token (x : Lexeme)
  | stray (s : Stray)

namespace Mark

def span : Mark → Span
  | token x => x.span
  | stray s => s.span

def lexeme? : Mark → Option Lexeme
  | token x => some x
  | stray _ => none

def stray? : Mark → Option Stray
  | token _ => none
  | stray s => some s

/-- The mark that a located piece is. -/
def ofPiece? : Piece × Span → Option Mark
  | (.token t _, span) => some (.token ⟨t, span⟩)
  | (.stray c, span) => some (.stray ⟨c, span⟩)
  | (.blank _, _) => none

theorem span_of_ofPiece? {q : Piece × Span} {m : Mark} (h : ofPiece? q = some m) :
    m.span = q.2 := by
  obtain ⟨p, span⟩ := q
  cases p <;> cases h <;> rfl

end Mark

/-- The marks of a text that starts at a place. -/
def marksFrom (start : Nat) (cs : List Char) : List Mark :=
  (locate start (pieces cs)).filterMap Mark.ofPiece?

/-- The marks of a text. -/
def marks (source : String) : List Mark := marksFrom 0 source.toList

theorem marksFrom_nil (start : Nat) : marksFrom start [] = [] := by
  rw [marksFrom, pieces]
  rfl

theorem marksFrom_cons (start : Nat) (c : Char) (cs : List Char) :
    marksFrom start (c :: cs)
      = (Mark.ofPiece? ((firstPiece c cs).1,
            ⟨start, start + byteLength (firstPiece c cs).1.text⟩)).toList
        ++ marksFrom (start + byteLength (firstPiece c cs).1.text) (firstPiece c cs).2 := by
  rw [marksFrom, pieces, locate, List.filterMap_cons]
  cases Mark.ofPiece? _ with
  | none => rfl
  | some m => rfl

theorem lexemes_marks (source : String) :
    (marks source).filterMap Mark.lexeme? = (scan source).lexemes := by
  rw [marks, marksFrom, List.filterMap_filterMap]
  refine List.filterMap_congr fun q _ => ?_
  obtain ⟨p, span⟩ := q
  cases p <;> rfl

theorem strays_marks (source : String) :
    (marks source).filterMap Mark.stray? = (scan source).strays := by
  rw [marks, marksFrom, List.filterMap_filterMap]
  refine List.filterMap_congr fun q _ => ?_
  obtain ⟨p, span⟩ := q
  cases p <;> rfl

/-- **Marks do not overlap**, as pieces follow one another. -/
theorem pairwise_marks (source : String) :
    (marks source).Pairwise fun m m' => m.span.stop ≤ m'.span.start := by
  refine List.pairwise_filterMap.mpr ((pairwise_locate _ 0).imp ?_)
  intro q q' hle m hm m' hm'
  rw [Mark.span_of_ofPiece? hm, Mark.span_of_ofPiece? hm']
  exact hle

/-- No mark of the rest of a text starts before the rest does. -/
theorem start_le_of_mem_marksFrom {start : Nat} {cs : List Char} {m : Mark}
    (h : m ∈ marksFrom start cs) : start ≤ m.span.start := by
  obtain ⟨q, hq, hm⟩ := List.mem_filterMap.mp h
  rw [Mark.span_of_ofPiece? hm]
  exact (span_of_mem_locate hq).1

/-- A mark is spelled by its slice: a token by a text that fits it, a stray character by itself,
    where nothing matches. -/
def Mark.Fits (slice rest : List Char) : Mark → Prop
  | token x => x.token.Fits slice rest
  | stray s => slice = [s.char] ∧ ∀ w, w <+: s.char :: rest → ¬ Matches w

theorem Mark.Fits.ne_nil {m : Mark} {slice rest : List Char} (h : m.Fits slice rest) :
    slice ≠ [] := by
  cases m with
  | token x => exact Matches.ne_nil (Or.inr ⟨x.token, h.shape⟩)
  | stray s =>
    rw [h.1]
    exact List.cons_ne_nil _ _

theorem Mark.fits_of_ofPiece? {p : Piece} {span : Span} {m : Mark} {rest : List Char}
    (h : ofPiece? (p, span) = some m) (hp : p.Fits rest) : m.Fits p.text rest := by
  cases p with
  | blank text => cases h
  | token t text =>
    cases h
    exact hp
  | stray c =>
    cases h
    exact ⟨rfl, hp⟩

/-- What is no mark is skipped. -/
theorem Mark.filler_of_ofPiece? {p : Piece} {span : Span} {rest : List Char}
    (h : ofPiece? (p, span) = none) (hp : p.Fits rest) : Filler rest p.text := by
  cases p with
  | blank text => exact hp
  | token t text => cases h
  | stray c => cases h

/-- **A mark is a stretch of the text that fits**, with what stands before it and after it. -/
theorem cuts_of_mem_marks {source : String} {m : Mark} (hm : m ∈ marks source) :
    ∃ before slice rest, m.span.Cuts source before slice rest ∧ m.Fits slice rest := by
  obtain ⟨⟨p, span⟩, hq, hp⟩ := List.mem_filterMap.mp hm
  obtain ⟨before, rest, hcuts, hfits⟩ := cuts_of_mem_locate source.toList [] rfl hq
  refine ⟨before, p.text, rest, ?_, Mark.fits_of_ofPiece? hp hfits⟩
  rw [Mark.span_of_ofPiece? hp]
  exact hcuts

/-- A mark takes room, from one boundary of characters to another. -/
theorem within_of_mem_marks {source : String} {m : Mark} (hm : m ∈ marks source) :
    m.span.start < m.span.stop ∧ m.span.Within source := by
  obtain ⟨before, slice, rest, hcuts, hfits⟩ := cuts_of_mem_marks hm
  refine ⟨?_, hcuts.within⟩
  have hpos := byteLength_pos hfits.ne_nil
  rw [hcuts.stop]
  omega

theorem mem_marks_of_lexeme {source : String} {x : Lexeme} (hx : x ∈ (scan source).lexemes) :
    .token x ∈ marks source := by
  rw [← lexemes_marks] at hx
  obtain ⟨m, hm, hx⟩ := List.mem_filterMap.mp hx
  cases m with
  | token x' =>
    obtain rfl := Option.some.inj hx
    exact hm
  | stray s => cases hx

theorem mem_marks_of_stray {source : String} {s : Stray} (hs : s ∈ (scan source).strays) :
    .stray s ∈ marks source := by
  rw [← strays_marks] at hs
  obtain ⟨m, hm, hs⟩ := List.mem_filterMap.mp hs
  cases m with
  | token x => cases hs
  | stray s' =>
    obtain rfl := Option.some.inj hs
    exact hm

/-! ## Gaps -/

/-- A stretch of a text of the given length that no mark touches and that cannot be extended: it
    runs from a mark or the start of the text to a mark or its end. -/
structure Span.IsGap (gap : Span) (marks : List Mark) (length : Nat) : Prop where
  untouched : ∀ m ∈ marks, m.span.stop ≤ gap.start ∨ gap.stop ≤ m.span.start
  start : gap.start = 0 ∨ ∃ m ∈ marks, gap.start = m.span.stop
  stop : gap.stop = length ∨ ∃ m ∈ marks, gap.stop = m.span.start

/-- A gap of a text from a place on, which may be the start of the gap. -/
structure Span.IsGapFrom (gap : Span) (place : Nat) (marks : List Mark) (length : Nat) : Prop where
  place_le : place ≤ gap.start
  untouched : ∀ m ∈ marks, m.span.stop ≤ gap.start ∨ gap.stop ≤ m.span.start
  start : gap.start = place ∨ ∃ m ∈ marks, gap.start = m.span.stop
  stop : gap.stop = length ∨ ∃ m ∈ marks, gap.stop = m.span.start

/-- Before a further mark, a gap from the end of that mark on is a gap from any place before it. -/
theorem Span.IsGapFrom.cons {gap : Span} {place length : Nat} {m : Mark} {ms : List Mark}
    (h : gap.IsGapFrom m.span.stop ms length) (hplace : place ≤ m.span.stop) :
    gap.IsGapFrom place (m :: ms) length where
  place_le := hplace.trans h.place_le
  untouched := List.forall_mem_cons.mpr ⟨Or.inl h.place_le, h.untouched⟩
  start := by
    rcases h.start with hstart | ⟨m', hm', hstart⟩
    · exact Or.inr ⟨m, List.mem_cons_self, hstart⟩
    · exact Or.inr ⟨m', List.mem_cons_of_mem _ hm', hstart⟩
  stop := h.stop.imp_right fun ⟨m', hm', hstop⟩ => ⟨m', List.mem_cons_of_mem _ hm', hstop⟩

/-- A byte that no mark holds lies in a gap, and the gap is filled with blanks and comments. Of the
    text, `before` is done, and `pending` is filler that has been read since. -/
theorem gap_of_pending {source : String} {n : Nat} (hn : n < source.utf8ByteSize) (cs : List Char) :
    ∀ before pending : List Char, source.toList = before ++ (pending ++ cs) → Filler cs pending →
      byteLength before ≤ n →
      (∀ m ∈ marksFrom (byteLength before + byteLength pending) cs, ¬ m.span.Holds n) →
      ∃ gap : Span, gap.Holds n
        ∧ gap.IsGapFrom (byteLength before)
            (marksFrom (byteLength before + byteLength pending) cs) source.utf8ByteSize
        ∧ ∃ before' slice rest, gap.Cuts source before' slice rest ∧ Filler rest slice := by
  induction cs using pieces.induct with
  | case1 =>
    intro before pending htext hpending hplace _
    rw [marksFrom_nil]
    have hlength : source.utf8ByteSize = byteLength before + byteLength pending := by
      rw [← byteLength_toList, htext, List.append_nil, byteLength_append]
    refine ⟨⟨byteLength before, source.utf8ByteSize⟩, ⟨hplace, hn⟩, ?_, before, pending, [],
      ⟨htext, rfl, hlength⟩, hpending⟩
    exact ⟨Nat.le_refl _, List.forall_mem_nil _, Or.inl rfl, Or.inl rfl⟩
  | case2 c cs ih =>
    intro before pending htext hpending hplace hnone
    have happend := firstPiece_append c cs
    have hfits := firstPiece_fits c cs
    rw [marksFrom_cons] at hnone ⊢
    set p := (firstPiece c cs).1
    set rest := (firstPiece c cs).2
    set start := byteLength before + byteLength pending with hstart
    cases hm : Mark.ofPiece? (p, ⟨start, start + byteLength p.text⟩) with
    | none =>
      -- more filler is pending
      have hfiller : Filler rest p.text := Mark.filler_of_ofPiece? hm hfits
      rw [hm] at hnone
      have hlength : byteLength before + byteLength (pending ++ p.text)
          = start + byteLength p.text := by
        rw [byteLength_append, hstart, Nat.add_assoc]
      rw [← happend] at htext hpending
      have := ih before (pending ++ p.text) (by rw [htext, List.append_assoc])
        (hpending.append hfiller) hplace
      rw [hlength] at this
      exact this hnone
    | some m =>
      have hspan : m.span = ⟨start, start + byteLength p.text⟩ := Mark.span_of_ofPiece? hm
      rw [hm] at hnone
      obtain ⟨hfirst, hnone⟩ := List.forall_mem_cons.mp hnone
      by_cases hlt : n < start
      · -- the byte lies in what is pending, which ends at the mark
        refine ⟨⟨byteLength before, start⟩, ⟨hplace, hlt⟩, ?_, before, pending, c :: cs,
          ⟨htext, rfl, rfl⟩, hpending⟩
        refine ⟨Nat.le_refl _, List.forall_mem_cons.mpr ⟨?_, ?_⟩, Or.inl rfl,
          Or.inr ⟨m, List.mem_cons_self, by rw [hspan]⟩⟩
        · rw [hspan]
          exact Or.inr (Nat.le_refl _)
        · intro m' hm'
          have hle := start_le_of_mem_marksFrom hm'
          exact Or.inr (by dsimp only; omega)
      · -- the byte lies behind the mark
        have hle : m.span.stop ≤ n := by
          by_contra hlt'
          refine hfirst ⟨?_, Nat.lt_of_not_le hlt'⟩
          rw [hspan]
          exact Nat.le_of_not_lt hlt
        have hdone : byteLength (before ++ (pending ++ p.text)) = start + byteLength p.text := by
          rw [byteLength_append, byteLength_append, hstart, Nat.add_assoc]
        have := ih (before ++ (pending ++ p.text)) [] (by
          rw [htext, ← happend]; simp only [List.append_assoc, List.nil_append]) .nil
        rw [show byteLength ([] : List Char) = 0 from rfl, Nat.add_zero, hdone] at this
        rw [hspan] at hle
        obtain ⟨gap, hholds, hgap, hcuts⟩ := this hle hnone
        refine ⟨gap, hholds, Span.IsGapFrom.cons ?_ ?_, hcuts⟩
        · rw [hspan]
          exact hgap
        · rw [hspan]
          dsimp only
          omega

/-- **What lies between the marks is filler**, from the end of one mark to the start of the next. -/
theorem gap_of_untouched {source : String} {n : Nat} (hn : n < source.utf8ByteSize)
    (hnone : ∀ m ∈ marks source, ¬ m.span.Holds n) :
    ∃ gap : Span, gap.Holds n ∧ gap.IsGap (marks source) source.utf8ByteSize
      ∧ ∃ before slice rest, gap.Cuts source before slice rest ∧ Filler rest slice := by
  obtain ⟨gap, hholds, hgap, hcuts⟩ :=
    gap_of_pending hn source.toList [] [] rfl .nil (Nat.zero_le n) hnone
  exact ⟨gap, hholds, ⟨hgap.untouched, hgap.start, hgap.stop⟩, hcuts⟩

/-! ## The tiling -/

/-- A word is a reserved word if and only if the whole word is. -/
theorem Token.Fits.keyword_iff {t : Token} {text rest : List Char} (h : t.Fits text rest)
    (k : Keyword) : t = .keyword k ↔ text = k.text.toList := by
  constructor
  · rintro rfl
    exact h.shape
  · rintro rfl
    rw [h.word k.text_mem_identifier, String.ofList_toList, wordToken_keyword]

theorem Token.Fits.name_eq {name : String} {text rest : List Char}
    (h : (Token.ident name).Fits text rest) : text = name.toList := by
  rw [← eq_of_wordToken_eq_ident (h.word h.shape).symm, String.toList_ofList]

/-- **Scanning tiles every text by longest match.** The tokens and the stray characters, merged by
    their places, are in order, take room and do not overlap; they lie in the text, from one boundary
    of characters to another. A byte outside them lies in a gap that runs from one of them to the next
    and holds only blanks and comments. A token's slice matches its pattern, and no longer front of
    what starts there matches any; it is a reserved word just if the whole slice is that word. A stray
    character is one character from which nothing matches. -/
theorem scan_tiles (source : String) :
    ∃ marks : List Mark,
      marks.filterMap Mark.lexeme? = (scan source).lexemes
      ∧ marks.filterMap Mark.stray? = (scan source).strays
      ∧ marks.Pairwise (fun m m' => m.span.stop ≤ m'.span.start)
      ∧ (∀ m ∈ marks, m.span.start < m.span.stop ∧ m.span.Within source)
      ∧ (∀ n < source.utf8ByteSize, (∀ m ∈ marks, ¬ m.span.Holds n) →
          ∃ gap : Span, gap.Holds n ∧ gap.IsGap marks source.utf8ByteSize
            ∧ ∃ before slice rest, gap.Cuts source before slice rest ∧ Filler rest slice)
      ∧ (∀ x ∈ (scan source).lexemes, ∃ before slice rest,
          x.span.Cuts source before slice rest
          ∧ slice ∈ x.token.pattern
          ∧ (∀ w, w <+: slice ++ rest → Matches w → w.length ≤ slice.length)
          ∧ (∀ k, x.token = .keyword k ↔ slice = k.text.toList)
          ∧ ∀ name, x.token = .ident name → slice = name.toList)
      ∧ ∀ s ∈ (scan source).strays, ∃ before rest,
          s.span.Cuts source before [s.char] rest
          ∧ ∀ w, w <+: s.char :: rest → ¬ Matches w := by
  refine ⟨marks source, lexemes_marks source, strays_marks source, pairwise_marks source,
    fun m hm => within_of_mem_marks hm, fun n hn hnone => gap_of_untouched hn hnone, ?_, ?_⟩
  · intro x hx
    obtain ⟨before, slice, rest, hcuts, hfits⟩ := cuts_of_mem_marks (mem_marks_of_lexeme hx)
    have hfits : x.token.Fits slice rest := hfits
    refine ⟨before, slice, rest, hcuts, hfits.shape, hfits.longest, hfits.keyword_iff, ?_⟩
    intro name hname
    rw [hname] at hfits
    exact hfits.name_eq
  · intro s hs
    obtain ⟨before, slice, rest, hcuts, hslice, hnone⟩ := cuts_of_mem_marks (mem_marks_of_stray hs)
    rw [hslice] at hcuts
    exact ⟨before, rest, hcuts, hnone⟩

end Stencil.Source
