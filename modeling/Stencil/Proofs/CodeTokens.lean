import Mathlib
import Stencil.Format.Header
import Stencil.Proofs.ModelText

/-!
# Tokens of generated code

A line of generated code is read as tokens: words of letters and digits, and every other character
for itself, blanks left out. Nothing else is assumed of the language, so that a name means whatever
has been declared under it.

Text is read as its parts are, unless a word goes on from one part to the next
(`lex_append_of_starts`, `lex_append_of_ends`). An address and a point are read as the same tokens,
up to `grids.` and the lane (`lex_address`, `lex_point`).

The reader goes through a text from its end, and what it holds is a `Front`: the word that the next
character may still extend, and the tokens after it. In this direction reading a text and then
another one before it is a composition (`readBack_append`), and whether two texts may be read apart
is a question about two characters.

Declarations are found with the same economy: a name that comes right after the end of a type is
declared. For the signature of a function that gives the grids and the parameters
(`declared_signature`).
-/

namespace Stencil.Code

/-! ## Reading tokens -/

/-- What is read of a text when one has gone back from its end: the word that the characters before
    may belong to, and the tokens after it. -/
structure Front where
  word : List Char
  tokens : List String
  deriving DecidableEq

namespace Front

/-- The tokens, if no character before belongs to the word. -/
def close (f : Front) : List String :=
  if f.word = [] then f.tokens else String.ofList f.word :: f.tokens

def push (c : Char) (f : Front) : Front :=
  if isLetterOrDigit c then ⟨c :: f.word, f.tokens⟩
  else if c = ' ' then ⟨[], f.close⟩
  else ⟨[], String.singleton c :: f.close⟩

/-- The tokens `ts` stand behind. -/
def before (f : Front) (ts : List String) : Front := ⟨f.word, f.tokens ++ ts⟩

theorem close_before (f : Front) (ts : List String) : (f.before ts).close = f.close ++ ts := by
  unfold close before
  split_ifs <;> rfl

/-- A character does not look past the word at hand, so that tokens further on stay as they are. -/
theorem push_before (c : Char) (f : Front) (ts : List String) :
    (f.before ts).push c = (f.push c).before ts := by
  unfold push
  rw [close_before]
  split_ifs <;> rfl

end Front

/-- What is read when one goes back over a text, from what is read of the text behind it. -/
def readBack (text : String) (f : Front) : Front := text.toList.foldr Front.push f

/-- The tokens of a text. -/
def lex (text : String) : List String := (readBack text ⟨[], []⟩).close

theorem readBack_append (a b : String) (f : Front) :
    readBack (a ++ b) f = readBack a (readBack b f) := by
  simp [readBack]

/-- Tokens further on stay as they are while a whole text is read. -/
theorem readBack_before (text : String) (f : Front) (ts : List String) :
    readBack text (f.before ts) = (readBack text f).before ts := by
  unfold readBack
  induction text.toList with
  | nil => rfl
  | cons c cs ih => rw [List.foldr_cons, List.foldr_cons, ih, Front.push_before]

/-! ## Texts of parts -/

/-- The text starts with a character that belongs to no word. -/
def startsToken (text : String) : Bool := text.toList.head?.any (!isLetterOrDigit ·)

/-- The text ends in a character that belongs to no word. -/
def endsToken (text : String) : Bool := text.toList.getLast?.any (!isLetterOrDigit ·)

theorem startsToken_append {a : String} (h : startsToken a = true) (b : String) :
    startsToken (a ++ b) = true := by
  unfold startsToken at h ⊢
  cases ha : a.toList.head? with
  | none => simp [ha] at h
  | some c => simpa [ha, List.head?_append] using h

theorem endsToken_append (a : String) {b : String} (h : endsToken b = true) :
    endsToken (a ++ b) = true := by
  unfold endsToken at h ⊢
  cases hb : b.toList.getLast? with
  | none => simp [hb] at h
  | some c => simpa [hb, List.getLast?_append] using h

/-- After a text that starts with a symbol there is no word for an earlier character to extend. -/
theorem word_readBack_of_starts {text : String} (h : startsToken text = true) (f : Front) :
    (readBack text f).word = [] := by
  unfold startsToken at h
  unfold readBack
  cases hcs : text.toList with
  | nil => simp [hcs] at h
  | cons c cs =>
    have hc : isLetterOrDigit c = false := by simpa [hcs] using h
    simp only [List.foldr_cons, Front.push, hc, Bool.false_eq_true, if_false]
    split_ifs <;> rfl

/-- A character that belongs to no word closes the word behind it. -/
theorem push_close {c : Char} (hc : isLetterOrDigit c = false) (f : Front) :
    f.push c = Front.push c ⟨[], f.close⟩ := by
  simp [Front.push, hc, Front.close]

/-- Tokens that are not part of the text behind them. -/
theorem close_readBack {text : String} {f : Front} (h : f.word = []) :
    (readBack text f).close = lex text ++ f.tokens := by
  have hf : f = Front.before ⟨[], []⟩ f.tokens := by
    cases f
    cases h
    rfl
  rw [hf, readBack_before, Front.close_before]
  rfl

/-- A text that starts with a symbol is read apart from whatever stands before it. -/
theorem lex_append_of_starts (a : String) {b : String} (h : startsToken b = true) :
    lex (a ++ b) = lex a ++ lex b := by
  have hword := word_readBack_of_starts h ⟨[], []⟩
  have hb : lex b = (readBack b ⟨[], []⟩).tokens := if_pos hword
  rw [hb, lex, readBack_append, close_readBack hword]

/-- A text that ends with a symbol is read apart from whatever stands after it. -/
theorem lex_append_of_ends {a : String} (h : endsToken a = true) (b : String) :
    lex (a ++ b) = lex a ++ lex b := by
  unfold endsToken at h
  obtain ⟨cs, c, hcs⟩ : ∃ cs c, a.toList = cs ++ [c] := by
    rcases List.eq_nil_or_concat' a.toList with hnil | hconcat
    · simp [hnil] at h
    · exact hconcat
  have hc : isLetterOrDigit c = false := by simpa [hcs] using h
  have hclose : ∀ f : Front, readBack a f = readBack a ⟨[], f.close⟩ := by
    intro f
    rw [readBack, readBack, hcs, List.foldr_append, List.foldr_append]
    exact congrArg (fun f => cs.foldr Front.push f) (push_close hc f)
  rw [lex, readBack_append, hclose, close_readBack rfl]
  rfl

theorem lex_then {a b : String} {as bs : List String} (ha : lex a = as) (hb : lex b = bs)
    (h : startsToken b = true) : lex (a ++ b) = as ++ bs := by
  rw [lex_append_of_starts a h, ha, hb]

theorem lex_after {a b : String} {as bs : List String} (ha : lex a = as)
    (h : endsToken a = true) (hb : lex b = bs) : lex (a ++ b) = as ++ bs := by
  rw [lex_append_of_ends h, ha, hb]

/-- A part between parts that end and start a token. -/
theorem lex_around {a x b : String} {as xs : List String} (ha : lex a = as) (hx : lex x = xs)
    (hends : endsToken a = true := by first | rfl | exact endsToken_append _ rfl)
    (hstarts : startsToken b = true := by rfl) : lex (a ++ x ++ b) = as ++ xs ++ lex b :=
  lex_then (lex_after ha hends hx) rfl hstarts

/-! ## Words -/

/-- Letters and digits. -/
structure IsWord (text : String) : Prop where
  ne_nil : text.toList ≠ []
  chars : ∀ c ∈ text.toList, isLetterOrDigit c = true

/-- A word is no text that has another character. -/
theorem IsWord.ne {text other : String} (h : IsWord text) {c : Char} (hc : c ∈ other.toList)
    (hother : isLetterOrDigit c = false) : text ≠ other := by
  rintro rfl
  exact absurd (h.chars c hc) (by simp [hother])

/-- A name is a word: all its characters are letters and digits, and there is at least one. -/
theorem isWord_of_isIdentifier {text : String} (h : isIdentifier text = true) : IsWord text := by
  unfold isIdentifier at h
  cases hcs : text.toList with
  | nil => simp [hcs] at h
  | cons c cs =>
    obtain ⟨hc, hall⟩ : isLetter c = true ∧ cs.all isLetterOrDigit = true := by
      simpa [hcs] using h
    refine ⟨by simp [hcs], ?_⟩
    rw [hcs]
    exact List.forall_mem_cons.mpr ⟨by simp [isLetterOrDigit, hc], List.all_eq_true.mp hall⟩

theorem toList_toString (n : Nat) : (toString n).toList = Nat.toDigits 10 n := by
  rw [Nat.toString_eq_repr, Nat.toList_repr]

/-- A numeral is a word, because a digit can go on in a word. -/
theorem isWord_toString (n : Nat) : IsWord (toString n) := by
  refine ⟨?_, ?_⟩ <;> rw [toList_toString]
  · exact Nat.toDigits_ne_nil
  · intro c hc
    simp [isLetterOrDigit, isDigit_of_mem_toDigits hc]

/-- **A word is one token.** -/
theorem lex_word {text : String} (h : IsWord text) : lex text = [text] := by
  have hread : ∀ (cs : List Char), (∀ c ∈ cs, isLetterOrDigit c = true) →
      cs.foldr Front.push ⟨[], []⟩ = ⟨cs, []⟩ := by
    intro cs hcs
    induction cs with
    | nil => rfl
    | cons c cs ih =>
      rw [List.foldr_cons, ih fun d hd => hcs d (List.mem_cons_of_mem c hd), Front.push,
        if_pos (hcs c List.mem_cons_self)]
  rw [lex, readBack, hread _ h.chars, Front.close, if_neg h.ne_nil, String.ofList_toList]

/-! ## Indices -/

/-- A number that is added. None is written for zero. -/
def offsetTokens (o : Int64) : List String :=
  if o = 0 then [] else [if 0 < o.toInt then "+" else "-", toString o.toInt.natAbs]

/-- A dimension, the lane that is added, and a number that is added. -/
def indexTokens (i : Calc.AddressIndex) : List String :=
  i.dim :: ((if i.lane then ["+", "lane"] else []) ++ offsetTokens i.offset)

theorem toString_of_pos {n : Int} (h : 0 < n) : toString n = toString n.natAbs := by
  obtain ⟨m, rfl⟩ := Int.eq_ofNat_of_zero_le h.le
  rfl

theorem toString_of_neg {n : Int} (h : n < 0) : toString n = "-" ++ toString n.natAbs := by
  obtain ⟨m, rfl⟩ := Int.eq_negSucc_of_lt_zero h
  rfl

theorem toInt_neg_of_not_pos {o : Int64} (hzero : o ≠ 0) (hpos : ¬ 0 < o.toInt) : o.toInt < 0 := by
  have hne : o.toInt ≠ 0 := fun h => hzero (Int64.toInt_inj.mp h)
  omega

/-- An index of an address, with the lane and the offset if there are any. -/
theorem lex_addressIndex (i : Calc.AddressIndex) (h : IsWord i.dim) :
    lex i.text = indexTokens i := by
  have hbase : lex (i.dim ++ (if i.lane then " + lane" else ""))
      = i.dim :: (if i.lane then ["+", "lane"] else []) := by
    split_ifs
    · rw [lex_append_of_starts _ rfl, lex_word h]
      rfl
    · rw [String.append_empty, lex_word h]
  set base := i.dim ++ (if i.lane then " + lane" else "") with hdef
  have hnumber : ∀ (sign : String) (n : Nat), startsToken sign = true → endsToken sign = true →
      lex (base ++ sign ++ toString n) = lex base ++ (lex sign ++ [toString n]) := by
    intro sign n hstarts hends
    rw [lex_append_of_ends (endsToken_append base hends), lex_append_of_starts base hstarts,
      lex_word (isWord_toString n), List.append_assoc]
  rw [Calc.AddressIndex.text, ← hdef, indexTokens, offsetTokens, ← List.cons_append, ← hbase]
  split_ifs with hzero hpos
  · rw [List.append_nil]
  · rw [toString_of_pos hpos]
    exact hnumber " + " _ rfl rfl
  · exact hnumber " - " _ rfl rfl

/-- The index of a point is the index of an address without the lane. -/
theorem lex_pointIndex (dim : String) (o : Int64) (h : IsWord dim) :
    lex (Point.indexText dim o) = indexTokens ⟨dim, false, o⟩ := by
  rw [Point.indexText, indexTokens, if_neg Bool.false_ne_true, List.nil_append, offsetTokens]
  split_ifs with hzero hpos
  · exact lex_word h
  · rw [toString_of_pos hpos, lex_append_of_ends (endsToken_append dim rfl),
      lex_append_of_starts dim rfl, lex_word h, lex_word (isWord_toString _)]
    rfl
  · rw [toString_of_neg (toInt_neg_of_not_pos hzero hpos), ← String.append_assoc,
      lex_append_of_ends (endsToken_append dim rfl), lex_append_of_starts dim rfl, lex_word h,
      lex_word (isWord_toString _)]
    rfl

/-! ## Addresses and points -/

/-- A list with commas between is read item by item, since a comma is never part of a word. -/
theorem lex_join (texts : List String) :
    lex (Text.join ", " texts) = List.intercalate [","] (texts.map lex) := by
  induction texts with
  | nil => rfl
  | cons t ts ih =>
    cases ts with
    | nil => simp [Text.join]
    | cons t' ts =>
      have hjoin : Text.join ", " (t :: t' :: ts) = t ++ ", " ++ Text.join ", " (t' :: ts) := by
        rw [Text.join, Text.join, String.intercalate_cons_cons]
      rw [hjoin, lex_append_of_ends (endsToken_append t rfl), lex_append_of_starts t rfl, ih]
      simp only [List.map_cons, List.intercalate_cons_cons]
      rfl

/-- The tokens of a call with the given arguments. -/
def callTokens (callee : List String) (args : List (List String)) : List String :=
  callee ++ "(" :: (List.intercalate [","] args ++ [")"])

theorem lex_call (callee : String) (args : List String) :
    lex (callee ++ "(" ++ Text.join ", " args ++ ")") = callTokens (lex callee) (args.map lex) := by
  rw [lex_append_of_starts _ rfl, lex_append_of_ends (endsToken_append callee rfl),
    lex_append_of_starts callee rfl, lex_join]
  simp [callTokens]
  rfl

/-- **An address** is read as the member of `grids`, called with its indices. -/
theorem lex_address (a : Calc.Address) (hgrid : IsWord a.grid)
    (hdims : ∀ i ∈ a.indices, IsWord i.dim) :
    lex a.text = callTokens ["grids", ".", a.grid] (a.indices.map indexTokens) := by
  rw [Calc.Address.text, lex_call, lex_append_of_ends rfl, lex_word hgrid, List.map_map]
  congr 1
  exact List.map_congr_left fun i hi => lex_addressIndex i (hdims i hi)

/-- **A point** is read as its grid, called with the same indices and no lane. -/
theorem lex_point (p : Point) (hgrid : IsWord p.grid.name)
    (hdims : ∀ d ∈ p.grid.dims, IsWord d.name) :
    lex p.text = callTokens [p.grid.name]
      (p.indices.map fun (d, o) => indexTokens ⟨d.name, false, o⟩) := by
  rw [Point.text, lex_call, lex_word hgrid, List.map_map]
  congr 1
  exact List.map_congr_left fun i hi => lex_pointIndex _ _ (hdims _ (List.of_mem_zip hi).1)

/-! ## Declarations -/

/-- The tokens that a type ends in. -/
def typeEnds : List String := ["idx_t", "real_t", "real_vec_t", "&"]

/-- The names that are declared: each stands behind a type, or behind the mark of a reference. -/
def declared : List String → List String
  | type :: name :: ts =>
    if type ∈ typeEnds ∧ isIdentifier name = true then name :: declared (name :: ts)
    else declared (name :: ts)
  | _ => []

theorem declared_cons_of_not_mem {t : String} (h : t ∉ typeEnds) (ts : List String) :
    declared (t :: ts) = declared ts := by
  cases ts with
  | nil => rfl
  | cons name ts => rw [declared, if_neg fun hboth => h hboth.1]

theorem declared_symbol {symbol : String} (h : isIdentifier symbol = false) (t : String)
    (ts : List String) : declared (t :: symbol :: ts) = declared (symbol :: ts) := by
  rw [declared, if_neg (by simp [h])]

/-- A name after the end of a type is declared, and may itself be followed by a declaration. -/
theorem declared_name {type name : String} (htype : type ∈ typeEnds)
    (hname : isIdentifier name = true) (ts : List String) :
    declared (type :: name :: ts) = name :: declared (name :: ts) := by
  rw [declared, if_pos ⟨htype, hname⟩]

/-- Parameters that stand for dimensions, and what closes them. -/
theorem lex_params {close : String} (hclose : startsToken close = true) (params : List String)
    (h : ∀ p ∈ params, isIdentifier p = true) :
    startsToken (String.join (params.map (", idx_t " ++ ·)) ++ close) = true
      ∧ lex (String.join (params.map (", idx_t " ++ ·)) ++ close)
        = (params.flatMap fun p => [",", "idx_t", p]) ++ lex close := by
  induction params with
  | nil => exact ⟨by simpa using hclose, by simp⟩
  | cons p ps ih =>
    obtain ⟨hp, hps⟩ := List.forall_mem_cons.mp h
    obtain ⟨hstarts, hlex⟩ := ih hps
    have hjoin : String.join ((p :: ps).map (", idx_t " ++ ·)) ++ close
        = ", idx_t " ++ (p ++ (String.join (ps.map (", idx_t " ++ ·)) ++ close)) := by
      simp [String.join_cons, String.append_assoc]
    rw [hjoin]
    refine ⟨startsToken_append rfl _, ?_⟩
    rw [lex_append_of_ends rfl, lex_append_of_starts p hstarts, hlex,
      lex_word (isWord_of_isIdentifier hp)]
    rfl

/-- Parameters are declared in their order, each after its type and its comma. -/
theorem declared_params (params : List String) (h : ∀ p ∈ params, isIdentifier p = true) :
    ∀ before, declared (before :: ((params.flatMap fun p => [",", "idx_t", p]) ++ [")", "\x7b"]))
      = params := by
  induction params with
  | nil =>
    intro before
    rw [List.flatMap_nil, List.nil_append, declared_symbol rfl]
    rfl
  | cons p ps ih =>
    intro before
    obtain ⟨hp, hps⟩ := List.forall_mem_cons.mp h
    rw [List.flatMap_cons, List.append_assoc]
    show declared (before :: "," :: "idx_t" :: p :: _) = _
    rw [declared_symbol rfl, declared_cons_of_not_mem (by decide), declared_name (by decide) hp]
    exact congrArg (p :: ·) (ih hps p)

/-- The line that a function starts with. -/
def signature (plan : Calc.Plan) : String :=
  "    static inline void calc(Grids& grids" ++ Header.paramText plan ++ ") \x7b"

/-- The first line of a function: its fixed words, and a type and a name for each parameter. -/
theorem lex_signature (plan : Calc.Plan) (h : ∀ p ∈ plan.params, isIdentifier p = true) :
    lex (signature plan) = ["static", "inline", "void", "calc", "(", "Grids", "&", "grids"]
      ++ ((plan.params.flatMap fun p => [",", "idx_t", p]) ++ [")", "\x7b"]) := by
  have hfront : lex "    static inline void calc(Grids& grids"
      = ["static", "inline", "void", "calc", "(", "Grids", "&", "grids"] := by decide +kernel
  have hclose : startsToken ") \x7b" = true := rfl
  obtain ⟨hstarts, hlex⟩ := lex_params hclose plan.params h
  have hassoc : signature plan
      = "    static inline void calc(Grids& grids" ++ (Header.paramText plan ++ ") \x7b") :=
    String.append_assoc
  rw [hassoc]
  exact (lex_then hfront hlex hstarts).trans rfl

/-- A function declares `grids` and the dimensions as its parameters. -/
theorem declared_signature (plan : Calc.Plan) (h : ∀ p ∈ plan.params, isIdentifier p = true) :
    declared (lex (signature plan)) = "grids" :: plan.params := by
  rw [lex_signature plan h]
  exact congrArg ("grids" :: ·) (declared_params plan.params h "grids")

end Stencil.Code
