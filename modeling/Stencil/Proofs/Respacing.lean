import Mathlib
import Stencil.Proofs.Literals
import Stencil.Proofs.ReportPlaces

/-!
# Tokens survive any spacing

A token is cut off as the longest match where it stands. Between separators it is the longest match
again: what was cut off once is cut off wherever nothing follows that could extend it
(`cutOff_of_firstPiece`), whatever followed it before. So the characters of the tokens of a text,
with any separators between them, are scanned to the same tokens (`tokens_survive_respacing`).

A separator is a row of blanks and comments, each comment with the end of its line. Nothing that a
token could go on with starts one (`breaks_of_mem_separator`), and a separator itself leaves no
token behind (`filterMap_pieces_separator`).

What has to be shown is that a token does not depend on what came after it in the first text. For a
word that is plain. A numeral is more delicate: in `1e+x` the scanner takes `1` and leaves the mark,
because no digits follow; the `1` by itself, with a separator after it, is the same token.
-/

namespace Stencil

/-- What cannot extend a word or a numeral cannot extend a numeral. -/
theorem Breaks.ends {rest : List Char} (h : Breaks rest) : Numeral.Ends rest := by
  intro c hc
  obtain ⟨hclass, hpoint⟩ := h c hc
  refine ⟨h.not_digit c hc, hpoint, ?_, ?_⟩
  · rintro rfl
    exact absurd hclass (by decide)
  · rintro rfl
    exact absurd hclass (by decide)

namespace Source

open scoped Computability

/-! ## Slices -/

/-- The characters of a span, if it starts and stops between characters of the text. -/
def Span.slice? (span : Span) (source : String) : Option String :=
  (charsBefore? source.toList span.start).bind fun before =>
    (charsBefore? source.toList span.stop).map fun upto =>
      String.ofList (upto.drop before.length)

/-- A stretch of a text is sliced out of it. -/
theorem Span.Cuts.slice?_eq {span : Span} {source : String} {before slice rest : List Char}
    (h : span.Cuts source before slice rest) :
    span.slice? source = some (String.ofList slice) := by
  have hstart : charsBefore? source.toList span.start = some before := by
    rw [h.start, h.text, charsBefore?_append]
  have hstop : charsBefore? source.toList span.stop = some (before ++ slice) := by
    rw [h.stop, h.start, ← byteLength_append, h.text, ← List.append_assoc, charsBefore?_append]
  rw [slice?, hstart, hstop]
  simp only [Option.bind_some, Option.map_some, List.drop_left]

/-- The token that a piece is, with its characters. -/
def Piece.token? : Piece → Option (Token × List Char)
  | blank _ => none
  | token t text => some (t, text)
  | stray _ => none

theorem map_fst_locate (ps : List Piece) : ∀ start, (locate start ps).map Prod.fst = ps := by
  induction ps with
  | nil =>
    intro start
    rfl
  | cons p ps ih =>
    intro start
    exact congrArg (p :: ·) (ih _)

/-- **The slices of the tokens are the characters that they were cut off as.** -/
theorem slices_scan (source : String) :
    (scan source).lexemes.map (fun x => (x.token, x.span.slice? source))
      = ((pieces source.toList).filterMap Piece.token?).map
          fun (t, text) => (t, some (String.ofList text)) := by
  have hpieces : (pieces source.toList).filterMap Piece.token?
      = (locate 0 (pieces source.toList)).filterMap fun q => q.1.token? := by
    conv_lhs => rw [← map_fst_locate (pieces source.toList) 0, List.filterMap_map]
    rfl
  rw [hpieces, scan, List.map_filterMap, List.map_filterMap]
  refine List.filterMap_congr fun q hq => ?_
  obtain ⟨before, rest, hcuts, _⟩ := cuts_of_mem_locate source.toList [] rfl hq
  obtain ⟨p, span⟩ := q
  cases p with
  | token t text => exact congrArg (fun slice => some (t, slice)) hcuts.slice?_eq
  | blank text | stray c => rfl

/-! ## What is cut off before a break -/

/-- Wherever the characters are followed by nothing that could extend them, they are cut off as the
    token. -/
def Token.CutOff (t : Token) (text : List Char) : Prop :=
  ∃ c cs, text = c :: cs
    ∧ ∀ rest, Breaks rest → firstPiece c (cs ++ rest) = (.token t text, rest)

/-- A word is cut off wherever nothing follows that could extend it. -/
theorem cutOff_word {c : Char} {cs : List Char} (hc : isLetter c = true)
    (hcs : ∀ d ∈ cs, isLetterOrDigit d = true) :
    (wordToken (String.ofList (c :: cs))).CutOff (c :: cs) := by
  refine ⟨c, cs, rfl, fun rest hrest => ?_⟩
  obtain ⟨hblank, hcomment⟩ := not_blank_of_letter hc
  obtain ⟨htake, hdrop⟩ := takeWhile_run hcs fun d hd => (hrest d hd).1
  rw [firstPiece, hblank, if_neg Bool.false_ne_true, if_neg hcomment, if_pos hc]
  simp only [run, htake, hdrop]

/-- So is a numeral, with the value that it has by itself. -/
theorem cutOff_numeral {n : Numeral} (hn : n.Spelled) :
    (Token.number (n.value.toDouble false)).CutOff n.text := by
  have hnumber : n.text ∈ Pattern.number := Numeral.mem_number_iff.mpr ⟨n, hn, rfl⟩
  obtain ⟨c, cs, htext⟩ := List.exists_cons_of_ne_nil
    (Matches.ne_nil (Or.inr ⟨.number (n.value.toDouble false), hnumber⟩))
  rw [htext] at hnumber
  obtain ⟨hblank, hcomment, hletter, hsymbol⟩ := of_mem_number hnumber
  refine ⟨c, cs, htext, fun rest hrest => ?_⟩
  have htake := Numeral.take_of_spelled hn hrest.ends
  rw [htext, List.cons_append] at htake
  rw [firstPiece, hblank, if_neg Bool.false_ne_true, if_neg hcomment, hletter,
    if_neg Bool.false_ne_true, hsymbol, htake]

/-- **What is cut off somewhere is cut off before every break**, as the same token. -/
theorem cutOff_of_firstPiece {c : Char} {cs text : List Char} {t : Token}
    (h : (firstPiece c cs).1 = .token t text) : t.CutOff text := by
  unfold firstPiece run at h
  split_ifs at h with hblank hcomment hletter
  · obtain ⟨rfl, rfl⟩ := Piece.token.inj h
    exact cutOff_word hletter fun d hd => List.mem_takeWhile_imp hd
  · split at h
    · rename_i s hs
      obtain ⟨rfl, rfl⟩ := Piece.token.inj h
      obtain rfl := Symbol.char_of_ofChar? hs
      exact ⟨s.char, [], rfl, fun rest _ => firstPiece_symbol s rest⟩
    · rename_i n rest _ htake
      obtain ⟨rfl, rfl⟩ := Piece.token.inj h
      exact cutOff_numeral (Numeral.take_spelled htake)
    · cases h

/-! ## Separators -/

namespace Pattern

/-- `[ \t\r\n]` or `#[^\n]*\n`. -/
def spacer : Language Char :=
  one isBlank + one (· == '#') * ((one inComment)∗ * one (· == '\n'))

/-- Blanks and comments, each comment with the end of its line; at least one of them. -/
def separator : Language Char := many spacer

/-- A spacer is one blank, or a comment with the end of its line. -/
theorem mem_spacer {w : List Char} :
    w ∈ spacer ↔ (∃ c, isBlank c = true ∧ w = [c])
      ∨ ∃ text, (∀ c ∈ text, inComment c = true) ∧ w = '#' :: (text ++ ['\n']) := by
  rw [spacer, Language.mem_add, mem_one_mul]
  refine or_congr Iff.rfl ?_
  constructor
  · rintro ⟨c, hc, v, hv, rfl⟩
    obtain ⟨text, htext, e, ⟨d, hd, rfl⟩, rfl⟩ := Language.mem_mul.mp hv
    obtain rfl : c = '#' := beq_iff_eq.mp hc
    obtain rfl : d = '\n' := beq_iff_eq.mp hd
    exact ⟨text, mem_star_one.mp htext, rfl⟩
  · rintro ⟨text, htext, rfl⟩
    exact ⟨'#', rfl, text ++ ['\n'],
      Language.append_mem_mul (mem_star_one.mpr htext) ⟨'\n', rfl, rfl⟩, rfl⟩

/-- A spacer starts with nothing that could extend a word or a numeral. -/
theorem breaks_of_mem_spacer {w : List Char} (h : w ∈ spacer) (rest : List Char) :
    Breaks (w ++ rest) := by
  rcases mem_spacer.mp h with ⟨c, hc, rfl⟩ | ⟨text, _, rfl⟩
  · simp only [isBlank, Bool.or_eq_true, beq_iff_eq] at hc
    rcases hc with ((rfl | rfl) | rfl) | rfl <;> exact breaks_cons (by decide) (by decide) _
  · exact breaks_cons (by decide) (by decide) _

theorem breaks_of_mem_separator {gap : List Char} (h : gap ∈ separator) (rest : List Char) :
    Breaks (gap ++ rest) := by
  obtain ⟨w, hw, v, _, rfl⟩ := Language.mem_mul.mp h
  rw [List.append_assoc]
  exact breaks_of_mem_spacer hw _

section Skipped

variable {β : Type} {f : Piece → Option β} (hf : ∀ text, f (.blank text) = none)

include hf

/-- A spacer changes nothing where nothing is read off what is skipped. -/
theorem filterMap_pieces_spacer {w : List Char} (h : w ∈ spacer) (rest : List Char) :
    (pieces (w ++ rest)).filterMap f = (pieces rest).filterMap f := by
  rcases mem_spacer.mp h with ⟨c, hc, rfl⟩ | ⟨text, htext, rfl⟩
  · exact filterMap_pieces_blank hf hc rest
  · -- the comment is cut off up to the end of its line, which is a blank
    have hend : ∀ c ∈ ('\n' :: rest).head?, inComment c = false := by
      intro c hc
      rw [← Option.some.inj hc]
      rfl
    obtain ⟨htake, hdrop⟩ := takeWhile_run htext hend
    have hfirst : firstPiece '#' (text ++ '\n' :: rest) = (.blank ('#' :: text), '\n' :: rest) := by
      rw [firstPiece, if_neg (by decide), if_pos rfl]
      simp only [run, htake, hdrop]
    have htext : '#' :: (text ++ ['\n']) ++ rest = '#' :: (text ++ '\n' :: rest) := by simp
    rw [htext, filterMap_pieces_cons, hfirst]
    simp only [hf, Option.toList_none, List.nil_append]
    exact filterMap_pieces_blank hf rfl rest

/-- A separator leaves no token behind, however many blanks and comments it has. -/
theorem filterMap_pieces_separator {gap : List Char} (h : gap ∈ separator) (rest : List Char) :
    (pieces (gap ++ rest)).filterMap f = (pieces rest).filterMap f := by
  obtain ⟨w, hw, v, hv, rfl⟩ := Language.mem_mul.mp h
  obtain ⟨ws, rfl, hws⟩ := Language.mem_kstar.mp hv
  have hskip : (pieces (ws.flatten ++ rest)).filterMap f = (pieces rest).filterMap f := by
    clear hv h
    induction ws with
    | nil => rfl
    | cons w' ws ih =>
      obtain ⟨hw', hws⟩ := List.forall_mem_cons.mp hws
      rw [List.flatten_cons, List.append_assoc, filterMap_pieces_spacer hf hw', ih hws]
  rw [List.append_assoc, filterMap_pieces_spacer hf hw, hskip]

end Skipped

end Pattern

/-! ## Slices with separators between them -/

/-- The slices in their order, with a gap between each one and the next. -/
def spaced (gap : Nat → String) : List String → String
  | [] => ""
  | [slice] => slice
  | slice :: next :: slices => slice ++ gap 0 ++ spaced (fun i => gap (i + 1)) (next :: slices)

/-- What a piece says, with the characters of a token: nothing, a token, or a stray character. -/
def Piece.entry? : Piece → Option (Option (Token × List Char))
  | blank _ => none
  | token t text => some (some (t, text))
  | stray _ => some none

/-- A token before a separator is the first one, and the others are those of the rest. -/
theorem filterMap_entry?_token {t : Token} {text : List Char} (h : t.CutOff text)
    {rest : List Char} (hrest : Breaks rest) :
    (pieces (text ++ rest)).filterMap Piece.entry?
      = some (t, text) :: (pieces rest).filterMap Piece.entry? := by
  obtain ⟨c, cs, rfl, hfirst⟩ := h
  rw [List.cons_append, filterMap_pieces_cons, hfirst rest hrest]
  rfl

/-- **Tokens with separators between them are scanned to themselves.** -/
theorem filterMap_entry?_spaced (ts : List (Token × List Char)) (hts : ∀ x ∈ ts, x.1.CutOff x.2) :
    ∀ gap : Nat → String, (∀ i, (gap i).toList ∈ Pattern.separator) →
      (pieces (spaced gap (ts.map fun x => String.ofList x.2)).toList).filterMap Piece.entry?
        = ts.map some := by
  induction ts with
  | nil =>
    intro gap _
    show (pieces "".toList).filterMap Piece.entry? = []
    rw [String.toList_empty, pieces]
    rfl
  | cons x ts ih =>
    intro gap hgap
    obtain ⟨hx, hts⟩ := List.forall_mem_cons.mp hts
    cases ts with
    | nil =>
      show (pieces (String.ofList x.2).toList).filterMap Piece.entry? = [some x]
      rw [String.toList_ofList, ← List.append_nil x.2, filterMap_entry?_token hx breaks_nil, pieces]
      rfl
    | cons y ts =>
      have hlater := ih hts (fun i => gap (i + 1)) fun i => hgap (i + 1)
      set later := spaced (fun i => gap (i + 1)) ((y :: ts).map fun x => String.ofList x.2)
      have htext : (spaced gap ((x :: y :: ts).map fun x => String.ofList x.2)).toList
          = x.2 ++ ((gap 0).toList ++ later.toList) := by
        show (String.ofList x.2 ++ gap 0 ++ later).toList = _
        rw [String.toList_append, String.toList_append, String.toList_ofList, List.append_assoc]
      rw [htext, filterMap_entry?_token hx (Pattern.breaks_of_mem_separator (hgap 0) _),
        Pattern.filterMap_pieces_separator (fun _ => rfl) (hgap 0), hlater]
      rfl

/-- A text is scanned to what is read off its pieces. -/
theorem scan_of_entries {source : String} {ts : List (Token × List Char)}
    (h : (pieces source.toList).filterMap Piece.entry? = ts.map some) :
    (scan source).strays = [] ∧ (pieces source.toList).filterMap Piece.token? = ts := by
  have hmark : ∀ p : Piece, p.mark? = p.entry?.map (Option.map Prod.fst) := by
    intro p
    cases p <;> rfl
  have htoken : ∀ p : Piece, p.token? = p.entry?.bind id := by
    intro p
    cases p <;> rfl
  constructor
  · have houtline : outline source.toList = (ts.map Prod.fst).map some := by
      rw [outline, funext hmark, ← List.map_filterMap, h, List.map_map, List.map_map]
      rfl
    exact (scan_of_outline houtline).2
  · rw [funext htoken, ← List.filterMap_filterMap, h, List.filterMap_map]
    exact List.filterMap_some

/-- **Tokens survive any spacing.** The tokens of a text, stray characters dropped, have slices.
    With any separators between them, each made of blanks and of comments with the ends of their
    lines and not empty, the slices are a text that has no stray characters and is scanned to the
    same tokens with the same slices. -/
theorem tokens_survive_respacing (source : String) :
    ∃ slices : List String,
      (scan source).lexemes.map (fun x => x.span.slice? source) = slices.map some
      ∧ ∀ gap : Nat → String, (∀ i, (gap i).toList ∈ Pattern.separator) →
          let source' := spaced gap slices
          (scan source').strays = []
          ∧ (scan source').lexemes.map (fun x => (x.token, x.span.slice? source'))
              = (scan source).lexemes.map fun x => (x.token, x.span.slice? source) := by
  set ts := (pieces source.toList).filterMap Piece.token? with hts
  have hcut : ∀ x ∈ ts, x.1.CutOff x.2 := by
    intro x hx
    obtain ⟨p, hp, htoken⟩ := List.mem_filterMap.mp hx
    cases p with
    | token t text =>
      obtain rfl := Option.some.inj htoken
      exact forall_mem_pieces (P := Token.CutOff) (fun _ _ _ _ h => cutOff_of_firstPiece h) hp
    | blank text | stray c => cases htoken
  have hslices := slices_scan source
  rw [← hts] at hslices
  refine ⟨ts.map fun x => String.ofList x.2, ?_, fun gap hgap => ?_⟩
  · have hsecond := congrArg (List.map Prod.snd) hslices
    rw [List.map_map, List.map_map] at hsecond
    rw [List.map_map]
    exact hsecond
  · obtain ⟨hstrays, htokens⟩ := scan_of_entries (filterMap_entry?_spaced ts hcut gap hgap)
    refine ⟨hstrays, ?_⟩
    rw [slices_scan, htokens, hslices]

-- a number before a point, one before a letter that could start its power of ten, a stray character
example : (scan "1.5.2e@x").lexemes.map (fun x => x.span.slice? "1.5.2e@x")
      = ["1.5", ".2", "e", "x"].map some
    ∧ spaced (fun i => if i = 1 then "#e1\n\t" else " ") ["1.5", ".2", "e", "x"]
      = "1.5 .2#e1\n\te x" := by
  decide +kernel

end Source

end Stencil
