import Mathlib
import Stencil.Proofs.Scanning

/-!
# Patterns of tokens

What a token looks like is a regular language over characters. The patterns are stated here apart
from the scanner, as they stand in the definition of the source language:

    skipped    = [ \t\r\n]+ | #[^\n]*
    number     = [0-9]+ (\.[0-9]+)? ([eE][+-]?[0-9]+)? | \.[0-9]+ ([eE][+-]?[0-9]+)?
    identifier = [a-zA-Z_] [a-zA-Z0-9_]*

A keyword and a symbol have themselves as their patterns. The scanner cuts off the longest match:
`firstPiece_fits` says of the first piece of every text that it matches, and that no longer front of
the text matches any pattern. For words this is what `takeWhile` gives. For numerals it is
`Numeral.take_longest`: the parts of a numeral are told apart by their first characters, so taking
as much as possible of each part in turn takes as much as possible of the whole.

Taking as much as possible of each part is not the same as taking the longest match for every
pattern, and it would go wrong if a part could be read in two ways. Here a power starts with a
letter, a fraction with a point, and neither is a digit. What is compared are lengths of what is
left, for an arbitrary numeral at the front of the text: taking leaves no more than that numeral
does (`length_takePower_takeFraction_le`).

Which pattern matches is decided by the first character: letters, digits and points, blanks, the
mark of a comment and the symbols exclude each other (`Matches.of_cons`). A character that starts no
match is a stray one.
-/

namespace Stencil.Source

open scoped Computability

/-! ## Languages -/

namespace Pattern

/-- One character of a class. -/
def one (inClass : Char → Bool) : Language Char := {w | ∃ c, inClass c = true ∧ w = [c]}

/-- `L+`. -/
def many (L : Language Char) : Language Char := L * L∗

/-- `L?`. -/
def optional (L : Language Char) : Language Char := 1 + L

/-- `[0-9]+`. -/
def digits : Language Char := many (one isDigit)

/-- `\.[0-9]+`. -/
def fraction : Language Char := one (· == '.') * digits

/-- `[eE][+-]?[0-9]+`. -/
def power : Language Char :=
  one (fun c => c == 'e' || c == 'E') * (optional (one fun c => c == '+' || c == '-') * digits)

/-- `[0-9]+(\.[0-9]+)?([eE][+-]?[0-9]+)?` or `\.[0-9]+([eE][+-]?[0-9]+)?`. -/
def number : Language Char :=
  digits * (optional fraction * optional power) + fraction * optional power

/-- `[a-zA-Z_][a-zA-Z0-9_]*`. -/
def identifier : Language Char := one isLetter * (one isLetterOrDigit)∗

/-- `[ \t\r\n]+` or `#[^\n]*`. -/
def skipped : Language Char := many (one isBlank) + one (· == '#') * (one inComment)∗

variable {inClass : Char → Bool} {w : List Char}

theorem mem_optional {L : Language Char} : w ∈ optional L ↔ w = [] ∨ w ∈ L := Iff.rfl

/-- The first character of a sequence is one of the class that it starts with. -/
theorem mem_one_mul {L : Language Char} :
    w ∈ one inClass * L ↔ ∃ c, inClass c = true ∧ ∃ v ∈ L, w = c :: v := by
  rw [Language.mem_mul]
  constructor
  · rintro ⟨a, ⟨c, hc, rfl⟩, v, hv, rfl⟩
    exact ⟨c, hc, v, hv, rfl⟩
  · rintro ⟨c, hc, v, hv, rfl⟩
    exact ⟨[c], ⟨c, hc, rfl⟩, v, hv, rfl⟩

/-- Any number of characters of a class. -/
theorem mem_star_one : w ∈ (one inClass)∗ ↔ ∀ c ∈ w, inClass c = true := by
  rw [Language.mem_kstar]
  constructor
  · rintro ⟨ws, rfl, hws⟩ c hc
    obtain ⟨v, hv, hcv⟩ := List.mem_flatten.mp hc
    obtain ⟨d, hd, rfl⟩ := hws v hv
    rw [List.mem_singleton.mp hcv]
    exact hd
  · intro hw
    refine ⟨w.map fun c => [c], by rw [← List.flatMap_def, List.flatMap_singleton'], ?_⟩
    intro v hv
    obtain ⟨c, hc, rfl⟩ := List.mem_map.mp hv
    exact ⟨c, hw c hc, rfl⟩

theorem mem_many_one : w ∈ many (one inClass) ↔ w ≠ [] ∧ ∀ c ∈ w, inClass c = true := by
  rw [many, mem_one_mul]
  constructor
  · rintro ⟨c, hc, v, hv, rfl⟩
    exact ⟨List.cons_ne_nil c v, List.forall_mem_cons.mpr ⟨hc, mem_star_one.mp hv⟩⟩
  · rintro ⟨hne, hw⟩
    obtain ⟨c, v, rfl⟩ := List.exists_cons_of_ne_nil hne
    obtain ⟨hc, hv⟩ := List.forall_mem_cons.mp hw
    exact ⟨c, hc, v, mem_star_one.mpr hv, rfl⟩

end Pattern

/-- The pattern of a token. -/
def Token.pattern : Token → Language Char
  | keyword k => {k.text.toList}
  | symbol s => {[s.char]}
  | number _ => Pattern.number
  | ident _ => Pattern.identifier

/-- The characters match the pattern of a token, or of what is skipped. -/
def Matches (w : List Char) : Prop := w ∈ Pattern.skipped ∨ ∃ t : Token, w ∈ t.pattern

end Stencil.Source

/-! ## Numerals -/

namespace Stencil.Numeral

open Source

/-- A power of ten as the patterns allow it. -/
structure Power.Spelled (p : Power) : Prop where
  mark : p.mark = 'e' ∨ p.mark = 'E'
  sign : ∀ c ∈ p.sign, c = '+' ∨ c = '-'
  nonempty : p.digits ≠ []
  digits : ∀ c ∈ p.digits, isDigit c = true

/-- A numeral as the patterns allow it. -/
structure Spelled (n : Numeral) : Prop where
  nonempty : n.whole ≠ [] ∨ n.fraction ≠ []
  whole : ∀ c ∈ n.whole, isDigit c = true
  fraction : ∀ c ∈ n.fraction, isDigit c = true
  power : ∀ p ∈ n.power, p.Spelled

/-! ### Spelled numerals and the pattern -/

theorem mem_digits_iff {w : List Char} :
    w ∈ Pattern.digits ↔ w ≠ [] ∧ ∀ c ∈ w, isDigit c = true :=
  Pattern.mem_many_one

theorem mem_fraction_iff {w : List Char} :
    w ∈ Pattern.fraction ↔ ∃ ds, ds ≠ [] ∧ (∀ c ∈ ds, isDigit c = true) ∧ '.' :: ds = w := by
  rw [Pattern.fraction, Pattern.mem_one_mul]
  constructor
  · rintro ⟨c, hc, ds, hds, rfl⟩
    obtain ⟨hne, hdigits⟩ := mem_digits_iff.mp hds
    exact ⟨ds, hne, hdigits, by rw [beq_iff_eq.mp hc]⟩
  · rintro ⟨ds, hne, hdigits, rfl⟩
    exact ⟨'.', rfl, ds, mem_digits_iff.mpr ⟨hne, hdigits⟩, rfl⟩

/-- A fraction that may be missing is written as digits, perhaps none, and then without a point. -/
theorem mem_optional_fraction_iff {w : List Char} :
    w ∈ Pattern.optional Pattern.fraction
      ↔ ∃ ds, (∀ c ∈ ds, isDigit c = true) ∧ fractionText ds = w := by
  rw [Pattern.mem_optional, mem_fraction_iff]
  constructor
  · rintro (rfl | ⟨ds, hne, hdigits, rfl⟩)
    · exact ⟨[], List.forall_mem_nil _, rfl⟩
    · exact ⟨ds, hdigits, if_neg hne⟩
  · rintro ⟨ds, hdigits, rfl⟩
    by_cases hds : ds = []
    · exact Or.inl (if_pos hds)
    · exact Or.inr ⟨ds, hds, hdigits, (if_neg hds).symm⟩

/-- The pattern of a power matches the texts of the spelled powers. -/
theorem mem_power_iff {w : List Char} :
    w ∈ Pattern.power ↔ ∃ p : Power, p.Spelled ∧ p.text = w := by
  rw [Pattern.power, Pattern.mem_one_mul]
  constructor
  · rintro ⟨mark, hmark, v, hv, rfl⟩
    obtain ⟨sign, hsign, ds, hds, rfl⟩ := Language.mem_mul.mp hv
    obtain ⟨hne, hdigits⟩ := mem_digits_iff.mp hds
    have hmark' : mark = 'e' ∨ mark = 'E' := by simpa using hmark
    rcases Pattern.mem_optional.mp hsign with rfl | ⟨c, hc, rfl⟩
    · exact ⟨⟨mark, none, ds⟩, ⟨hmark', by simp, hne, hdigits⟩, rfl⟩
    · exact ⟨⟨mark, some c, ds⟩, ⟨hmark', by simpa using hc, hne, hdigits⟩, rfl⟩
  · rintro ⟨⟨mark, sign, ds⟩, ⟨hmark, hsign, hne, hdigits⟩, rfl⟩
    refine ⟨mark, by simpa using hmark, sign.toList ++ ds, ?_, rfl⟩
    refine Language.append_mem_mul ?_ (mem_digits_iff.mpr ⟨hne, hdigits⟩)
    cases sign with
    | none => exact Or.inl rfl
    | some c => exact Or.inr ⟨c, by simpa using hsign, rfl⟩

theorem mem_optional_power_iff {w : List Char} :
    w ∈ Pattern.optional Pattern.power
      ↔ ∃ p : Option Power, (∀ q ∈ p, q.Spelled) ∧ (p.map Power.text).getD [] = w := by
  rw [Pattern.mem_optional, mem_power_iff]
  constructor
  · rintro (rfl | ⟨p, hp, rfl⟩)
    · exact ⟨none, by simp, rfl⟩
    · exact ⟨some p, by simpa using hp, rfl⟩
  · rintro ⟨p, hp, rfl⟩
    cases p with
    | none => exact Or.inl rfl
    | some p => exact Or.inr ⟨p, hp p rfl, rfl⟩

/-- **The words of the pattern are the texts of the spelled numerals.** -/
theorem mem_number_iff {w : List Char} :
    w ∈ Pattern.number ↔ ∃ n : Numeral, n.Spelled ∧ n.text = w := by
  rw [Pattern.number, Language.mem_add, Language.mem_mul, Language.mem_mul]
  constructor
  · rintro (⟨whole, hwhole, v, hv, rfl⟩ | ⟨f, hf, v, hv, rfl⟩)
    · obtain ⟨f, hf, q, hq, rfl⟩ := Language.mem_mul.mp hv
      obtain ⟨hne, hdigits⟩ := mem_digits_iff.mp hwhole
      obtain ⟨ds, hds, rfl⟩ := mem_optional_fraction_iff.mp hf
      obtain ⟨p, hp, rfl⟩ := mem_optional_power_iff.mp hq
      exact ⟨⟨whole, ds, p⟩, ⟨Or.inl hne, hdigits, hds, hp⟩, by simp [text]⟩
    · obtain ⟨ds, hne, hds, rfl⟩ := mem_fraction_iff.mp hf
      obtain ⟨p, hp, rfl⟩ := mem_optional_power_iff.mp hv
      exact ⟨⟨[], ds, p⟩, ⟨Or.inr hne, List.forall_mem_nil _, hds, hp⟩,
        by simp [text, fractionText, hne]⟩
  · rintro ⟨⟨whole, ds, p⟩, ⟨hne, hwhole, hds, hp⟩, rfl⟩
    have hpower := mem_optional_power_iff.mpr ⟨p, hp, rfl⟩
    -- without a whole part it is the second alternative, and there is a fraction then
    by_cases hempty : whole = []
    · have hds' : ds ≠ [] := by simpa [hempty] using hne
      refine Or.inr ⟨'.' :: ds, mem_fraction_iff.mpr ⟨ds, hds', hds, rfl⟩, _, hpower, ?_⟩
      simp [text, fractionText, hempty, hds']
    · refine Or.inl ⟨whole, mem_digits_iff.mpr ⟨hempty, hwhole⟩, _, Language.append_mem_mul
        (mem_optional_fraction_iff.mpr ⟨ds, hds, rfl⟩) hpower, ?_⟩
      simp [text]

/-! ### What is taken is spelled -/

theorem takeFraction_digits (cs : List Char) : ∀ c ∈ (takeFraction cs).1, isDigit c = true := by
  unfold takeFraction
  split
  · rename_i rest
    split
    · simp
    · exact fun c hc => List.mem_takeWhile_imp hc
  · simp

theorem takeSign_sign (cs : List Char) : ∀ c ∈ (takeSign cs).1, c = '+' ∨ c = '-' := by
  unfold takeSign
  split <;> simp

theorem takePower_spelled (cs : List Char) : ∀ p ∈ (takePower cs).1, p.Spelled := by
  unfold takePower
  split
  · simp
  · rename_i mark rest
    split_ifs with hmark
    · dsimp only
      split
      · simp
      · rename_i hne
        intro p hp
        obtain rfl := Option.mem_some_iff.mp hp
        exact ⟨hmark, takeSign_sign rest, hne, fun c hc => List.mem_takeWhile_imp hc⟩
    · simp

/-- **What is taken as a numeral is spelled as one.** -/
theorem take_spelled {cs rest : List Char} {n : Numeral} (h : take cs = some (n, rest)) :
    n.Spelled := by
  unfold take at h
  dsimp only at h
  split_ifs at h with hne
  cases h
  exact ⟨not_and_or.mp hne, fun c hc => List.mem_takeWhile_imp hc, takeFraction_digits _,
    takePower_spelled _⟩

/-! ### What is taken is the longest -/

theorem length_takeFraction_le (cs : List Char) : (takeFraction cs).2.length ≤ cs.length := by
  have h := congrArg List.length (takeFraction_append cs)
  rw [List.length_append] at h
  omega

theorem length_takePower_le (cs : List Char) : (takePower cs).2.length ≤ cs.length := by
  have h := congrArg List.length (takePower_append cs)
  rw [List.length_append] at h
  omega

/-- A fraction is taken, with all the digits that follow it. -/
theorem takeFraction_fraction {ds : List Char} (hne : ds ≠ []) (hds : ∀ c ∈ ds, isDigit c = true)
    (rest : List Char) :
    takeFraction ('.' :: (ds ++ rest)) = (ds ++ rest.takeWhile isDigit, rest.dropWhile isDigit) := by
  have htake : (ds ++ rest).takeWhile isDigit = ds ++ rest.takeWhile isDigit :=
    List.takeWhile_append_of_pos hds
  have hdrop : (ds ++ rest).dropWhile isDigit = rest.dropWhile isDigit :=
    List.dropWhile_append_of_pos hds
  have hne' : ds ++ rest.takeWhile isDigit ≠ [] := fun h => hne (List.append_eq_nil_iff.mp h).1
  obtain ⟨d, ds', hcons⟩ := List.exists_cons_of_ne_nil hne'
  simp only [takeFraction, htake, hdrop, hcons]

/-- No fraction starts without a point, so that nothing is taken there. -/
theorem takeFraction_of_ne {c : Char} (h : c ≠ '.') (rest : List Char) :
    takeFraction (c :: rest) = ([], c :: rest) := by
  unfold takeFraction
  split
  · rename_i heq
    exact absurd (List.cons.inj heq).1 h
  · rfl

/-- A sign is taken before digits, and digits are no sign. -/
theorem takeSign_sign_append {sign : Option Char} (hsign : ∀ c ∈ sign, c = '+' ∨ c = '-')
    {d : Char} (hd : isDigit d = true) (rest : List Char) :
    takeSign (sign.toList ++ d :: rest) = (sign, d :: rest) := by
  cases sign with
  | none =>
    show takeSign (d :: rest) = (none, d :: rest)
    unfold takeSign
    split
    · rename_i heq
      rw [(List.cons.inj heq).1] at hd
      exact absurd hd (by decide)
    · rename_i heq
      rw [(List.cons.inj heq).1] at hd
      exact absurd hd (by decide)
    · rfl
  | some c =>
    rcases hsign c rfl with rfl | rfl <;> rfl

/-- A power of ten is taken, with all the digits that follow it. -/
theorem length_takePower_power_le {p : Power} (hp : p.Spelled) (rest : List Char) :
    (takePower (p.text ++ rest)).2.length ≤ rest.length := by
  obtain ⟨mark, sign, ds⟩ := p
  obtain ⟨hmark, hsign, hne, hds⟩ := hp
  obtain ⟨d, ds', rfl⟩ := List.exists_cons_of_ne_nil hne
  have htext : Power.text ⟨mark, sign, d :: ds'⟩ ++ rest
      = mark :: (sign.toList ++ d :: (ds' ++ rest)) := by
    simp [Power.text]
  have hdrop : (d :: (ds' ++ rest)).dropWhile isDigit = rest.dropWhile isDigit :=
    List.dropWhile_append_of_pos hds
  rw [htext, takePower, if_pos hmark,
    takeSign_sign_append hsign (hds d List.mem_cons_self) (ds' ++ rest)]
  dsimp only
  split
  · rename_i hnil
    rw [List.takeWhile_cons_of_pos (hds d List.mem_cons_self)] at hnil
    exact absurd hnil (List.cons_ne_nil _ _)
  · show ((d :: (ds' ++ rest)).dropWhile isDigit).length ≤ rest.length
    rw [hdrop]
    exact (List.dropWhile_sublist _).length_le

/-- A power of ten starts with its mark, which is no digit and no point. -/
theorem Power.Spelled.mark_ne {p : Power} (hp : p.Spelled) :
    isDigit p.mark = false ∧ p.mark ≠ '.' := by
  rcases hp.mark with h | h <;> rw [h] <;> decide

/-- A power does not start with a digit, so that it is not taken for more of the digits before
    it. -/
theorem Power.Spelled.dropWhile_text {p : Power} (hp : p.Spelled) (rest : List Char) :
    (p.text ++ rest).dropWhile isDigit = p.text ++ rest :=
  List.dropWhile_cons_of_neg (by simp [hp.mark_ne.1])

/-- Digits are skipped before a power of ten only where there is none. -/
theorem length_takePower_dropWhile_le {p : Option Power} (hp : ∀ q ∈ p, q.Spelled)
    (rest : List Char) :
    (takePower (((p.map Power.text).getD [] ++ rest).dropWhile isDigit)).2.length ≤ rest.length := by
  cases p with
  | none =>
    calc (takePower (rest.dropWhile isDigit)).2.length
      _ ≤ (rest.dropWhile isDigit).length := length_takePower_le _
      _ ≤ rest.length := (List.dropWhile_sublist _).length_le
  | some p =>
    show (takePower ((p.text ++ rest).dropWhile isDigit)).2.length ≤ rest.length
    rw [(hp p rfl).dropWhile_text]
    exact length_takePower_power_le (hp p rfl) rest

/-- Without a fraction before it, a power of ten is reached past the digits alone. -/
theorem length_takePower_takeFraction_le {p : Option Power} (hp : ∀ q ∈ p, q.Spelled)
    (rest : List Char) :
    (takePower (takeFraction (((p.map Power.text).getD [] ++ rest).dropWhile isDigit)).2).2.length
      ≤ rest.length := by
  cases p with
  | none =>
    calc (takePower (takeFraction (rest.dropWhile isDigit)).2).2.length
      _ ≤ (takeFraction (rest.dropWhile isDigit)).2.length := length_takePower_le _
      _ ≤ (rest.dropWhile isDigit).length := length_takeFraction_le _
      _ ≤ rest.length := (List.dropWhile_sublist _).length_le
  | some p =>
    have hfraction : takeFraction (p.text ++ rest) = ([], p.text ++ rest) :=
      takeFraction_of_ne (hp p rfl).mark_ne.2 _
    show (takePower (takeFraction ((p.text ++ rest).dropWhile isDigit)).2).2.length ≤ rest.length
    rw [(hp p rfl).dropWhile_text, hfraction]
    exact length_takePower_power_le (hp p rfl) rest

/-- **The numeral that is taken is the longest**: no more is left than after any spelled numeral at
    the front of the text. -/
theorem take_longest {n : Numeral} (hn : n.Spelled) (rest : List Char) :
    ∃ n' rest', take (n.text ++ rest) = some (n', rest') ∧ rest'.length ≤ rest.length := by
  obtain ⟨whole, ds, power⟩ := n
  obtain ⟨hne, hwhole, hds, hpower⟩ := hn
  dsimp only at hne hwhole hds hpower
  set after := (power.map Power.text).getD [] ++ rest with hafter
  have htext : text ⟨whole, ds, power⟩ ++ rest = whole ++ (fractionText ds ++ after) := by
    simp [text, hafter]
  have htake : (whole ++ (fractionText ds ++ after)).takeWhile isDigit
      = whole ++ (fractionText ds ++ after).takeWhile isDigit :=
    List.takeWhile_append_of_pos hwhole
  have hdrop : (whole ++ (fractionText ds ++ after)).dropWhile isDigit
      = (fractionText ds ++ after).dropWhile isDigit :=
    List.dropWhile_append_of_pos hwhole
  rw [htext, take, htake, hdrop]
  dsimp only
  by_cases hempty : ds = []
  · -- no fraction: there are digits, and the power follows them
    have hwhole' : whole ≠ [] := by simpa [hempty] using hne
    have hnot : ¬ (whole ++ (fractionText ds ++ after).takeWhile isDigit = []
        ∧ (takeFraction ((fractionText ds ++ after).dropWhile isDigit)).1 = []) :=
      fun h => hwhole' (List.append_eq_nil_iff.mp h.1).1
    rw [if_neg hnot]
    refine ⟨_, _, rfl, ?_⟩
    rw [hempty]
    exact length_takePower_takeFraction_le hpower rest
  · -- the fraction starts with a point, so that it is taken
    have hpoint : fractionText ds ++ after = '.' :: (ds ++ after) := by
      rw [fractionText, if_neg hempty]
      rfl
    have hstay : ('.' :: (ds ++ after)).dropWhile isDigit = '.' :: (ds ++ after) :=
      List.dropWhile_cons_of_neg (by decide)
    rw [hpoint, hstay, takeFraction_fraction hempty hds]
    have hnot : ¬ (whole ++ ('.' :: (ds ++ after)).takeWhile isDigit = []
        ∧ ds ++ after.takeWhile isDigit = []) :=
      fun h => hempty (List.append_eq_nil_iff.mp h.2).1
    rw [if_neg hnot]
    exact ⟨_, _, rfl, length_takePower_dropWhile_le hpower rest⟩

end Stencil.Numeral

namespace Stencil.Source

/-! ## First characters

The patterns are told apart by their first characters, except that a reserved word is also an
identifier. -/

theorem firstChar_of_mem_number {c : Char} {v : List Char} (h : c :: v ∈ Pattern.number) :
    isDigit c = true ∨ c = '.' := by
  obtain ⟨n, hn, htext⟩ := Numeral.mem_number_iff.mp h
  by_cases hwhole : n.whole = []
  · have hfraction : n.fraction ≠ [] := by simpa [hwhole] using hn.nonempty
    rw [Numeral.text, hwhole, Numeral.fractionText, if_neg hfraction] at htext
    exact Or.inr (List.cons.inj htext).1.symm
  · obtain ⟨d, ds, hds⟩ := List.exists_cons_of_ne_nil hwhole
    rw [Numeral.text, hds] at htext
    rw [← (List.cons.inj htext).1]
    exact Or.inl (hn.whole d (by rw [hds]; exact List.mem_cons_self))

/-- A numeral starts with no other pattern's first character. -/
theorem of_mem_number {c : Char} {v : List Char} (h : c :: v ∈ Pattern.number) :
    isBlank c = false ∧ c ≠ '#' ∧ isLetter c = false ∧ Symbol.ofChar? c = none := by
  rcases firstChar_of_mem_number h with hc | rfl
  · exact of_isDigit hc
  · decide

theorem mem_identifier {w : List Char} :
    w ∈ Pattern.identifier
      ↔ ∃ c v, w = c :: v ∧ isLetter c = true ∧ ∀ d ∈ v, isLetterOrDigit d = true := by
  rw [Pattern.identifier, Pattern.mem_one_mul]
  constructor
  · rintro ⟨c, hc, v, hv, rfl⟩
    exact ⟨c, v, rfl, hc, Pattern.mem_star_one.mp hv⟩
  · rintro ⟨c, v, rfl, hc, hv⟩
    exact ⟨c, hc, v, Pattern.mem_star_one.mpr hv, rfl⟩

/-- A reserved word has the shape of an identifier. -/
theorem Keyword.text_mem_identifier (k : Keyword) : k.text.toList ∈ Pattern.identifier := by
  have hword : isIdentifier k.text = true := by cases k <;> decide
  obtain ⟨c, v, hlist, hc, hv⟩ := (isIdentifier_iff k.text).mp hword
  exact mem_identifier.mpr ⟨c, v, hlist, (isLetter_iff c).mpr hc,
    fun d hd => (isLetterOrDigit_iff d).mpr (hv d hd)⟩

/-- What matches, by the pattern that it matches. -/
theorem Matches.shape {w : List Char} (h : Matches w) :
    (∃ c v, w = c :: v ∧ (isBlank c = true ∨ c = '#')) ∨ w ∈ Pattern.identifier
      ∨ (∃ s : Symbol, w = [s.char]) ∨ w ∈ Pattern.number := by
  rcases h with (hblank | hcomment) | ⟨t, ht⟩
  · obtain ⟨c, hc, v, _, rfl⟩ := Pattern.mem_one_mul.mp hblank
    exact Or.inl ⟨c, v, rfl, Or.inl hc⟩
  · obtain ⟨c, hc, v, _, rfl⟩ := Pattern.mem_one_mul.mp hcomment
    exact Or.inl ⟨c, v, rfl, Or.inr (beq_iff_eq.mp hc)⟩
  · cases t with
    | keyword k =>
      obtain rfl : w = k.text.toList := ht
      exact Or.inr (Or.inl k.text_mem_identifier)
    | symbol s => exact Or.inr (Or.inr (Or.inl ⟨s, ht⟩))
    | number v => exact Or.inr (Or.inr (Or.inr ht))
    | ident name => exact Or.inr (Or.inl ht)

theorem Matches.ne_nil {w : List Char} (h : Matches w) : w ≠ [] := by
  rintro rfl
  rcases h.shape with ⟨c, v, hw, _⟩ | hword | ⟨s, hw⟩ | hnumber
  · exact absurd hw (by simp)
  · obtain ⟨c, v, hw, _⟩ := mem_identifier.mp hword
    exact absurd hw (by simp)
  · exact absurd hw (by simp)
  · obtain ⟨n, hn, htext⟩ := Numeral.mem_number_iff.mp hnumber
    have := hn.nonempty
    simp_all [Numeral.text, Numeral.fractionText]

theorem Symbol.ofChar?_char (s : Symbol) : Symbol.ofChar? s.char = some s := by cases s <;> rfl

theorem Symbol.char_of_ofChar? {c : Char} {s : Symbol} (h : Symbol.ofChar? c = some s) :
    s.char = c := by
  simpa using List.find?_some h

/-- What matches and does not start with a blank or a comment, by its first character. -/
theorem Matches.of_cons {c : Char} {v : List Char} (h : Matches (c :: v)) (hblank : isBlank c = false)
    (hcomment : c ≠ '#') :
    (isLetter c = true ∧ ∀ d ∈ v, isLetterOrDigit d = true)
      ∨ ((Symbol.ofChar? c).isSome ∧ isLetter c = false ∧ v = [])
      ∨ (Symbol.ofChar? c = none ∧ isLetter c = false ∧ c :: v ∈ Pattern.number) := by
  rcases h.shape with ⟨c', v', hw, hc'⟩ | hword | ⟨s, hw⟩ | hnumber
  · obtain ⟨rfl, -⟩ := List.cons.inj hw
    rcases hc' with hc' | hc'
    · rw [hblank] at hc'
      exact absurd hc' (by simp)
    · exact absurd hc' hcomment
  · obtain ⟨c', v', hw, hc', hv'⟩ := mem_identifier.mp hword
    obtain ⟨rfl, rfl⟩ := List.cons.inj hw
    exact Or.inl ⟨hc', hv'⟩
  · obtain ⟨rfl, rfl⟩ := List.cons.inj hw
    refine Or.inr (Or.inl ⟨by rw [Symbol.ofChar?_char]; rfl, ?_, rfl⟩)
    cases s <;> decide
  · obtain ⟨_, _, hletter, hsymbol⟩ := of_mem_number hnumber
    exact Or.inr (Or.inr ⟨hsymbol, hletter, hnumber⟩)

/-! ## What is skipped -/

/-- Only blanks, and comments that run to the end of the line, where `rest` follows. -/
inductive Filler (rest : List Char) : List Char → Prop
  | nil : Filler rest []
  | blank {c : Char} {gap : List Char} (hc : isBlank c = true) (hgap : Filler rest gap) :
    Filler rest (c :: gap)
  | comment {text gap : List Char} (htext : '\n' ∉ text)
    (hend : ∀ c ∈ (gap ++ rest).head?, c = '\n') (hgap : Filler rest gap) :
    Filler rest ('#' :: (text ++ gap))

namespace Filler

theorem append {a b rest : List Char} (ha : Filler (b ++ rest) a) (hb : Filler rest b) :
    Filler rest (a ++ b) := by
  induction ha with
  | nil => exact hb
  | blank hc _ ih => exact .blank hc ih
  | comment htext hend _ ih =>
    rw [List.cons_append, List.append_assoc]
    refine .comment htext ?_ ih
    rwa [List.append_assoc]

theorem of_blanks {text rest : List Char} (h : ∀ c ∈ text, isBlank c = true) : Filler rest text := by
  induction text with
  | nil => exact .nil
  | cons c text ih =>
    obtain ⟨hc, htext⟩ := List.forall_mem_cons.mp h
    exact .blank hc (ih htext)

end Filler

/-! ## The first piece -/

/-- A token spelled by `text` where `rest` follows: the text matches the token's pattern, nothing
    longer from its start matches any pattern, and a word is the token that the whole word is. -/
structure Token.Fits (t : Token) (text rest : List Char) : Prop where
  shape : text ∈ t.pattern
  longest : ∀ w, w <+: text ++ rest → Matches w → w.length ≤ text.length
  word : text ∈ Pattern.identifier → t = wordToken (String.ofList text)

/-- A piece is what it is taken for, where `rest` follows. -/
def Piece.Fits (rest : List Char) : Piece → Prop
  | blank text => Filler rest text
  | token t text => t.Fits text rest
  | stray c => ∀ w, w <+: c :: rest → ¬ Matches w

/-- The first piece and what follows it are the text. -/
theorem firstPiece_append (c : Char) (cs : List Char) :
    (firstPiece c cs).1.text ++ (firstPiece c cs).2 = c :: cs := by
  unfold firstPiece run
  split_ifs
  · exact congrArg (c :: ·) List.takeWhile_append_dropWhile
  · exact congrArg (c :: ·) List.takeWhile_append_dropWhile
  · exact congrArg (c :: ·) List.takeWhile_append_dropWhile
  · split
    · rfl
    · rename_i h
      exact Numeral.take_append h
    · rfl

/-- A match at the front of a text starts with its first character. -/
theorem Matches.exists_cons {c : Char} {cs w : List Char} (hw : Matches w) (hfront : w <+: c :: cs) :
    ∃ v, w = c :: v ∧ v <+: cs := by
  obtain ⟨c', v, rfl⟩ := List.exists_cons_of_ne_nil hw.ne_nil
  obtain ⟨rfl, hv⟩ := List.cons_prefix_cons.mp hfront
  exact ⟨v, rfl, hv⟩

/-- A run is the longest front in its class. -/
theorem length_le_takeWhile {p : Char → Bool} {v cs : List Char} (hv : ∀ d ∈ v, p d = true)
    (hfront : v <+: cs) : v.length ≤ (cs.takeWhile p).length := by
  obtain ⟨z, rfl⟩ := hfront
  rw [List.takeWhile_append_of_pos hv, List.length_append]
  omega

/-- A word matches the pattern of the token it makes, whether that is a keyword or a name. -/
theorem wordToken_mem_pattern {text : List Char} (h : text ∈ Pattern.identifier) :
    text ∈ (wordToken (String.ofList text)).pattern := by
  unfold wordToken
  split
  · rename_i k hk
    have hword : k.text = String.ofList text := by simpa using List.find?_some hk
    show text = k.text.toList
    rw [hword, String.toList_ofList]
  · exact h

/-- **A word fits**: it is a match, and any longer front of the text has a character that is no part
    of a word. -/
theorem run_fits {c : Char} (hc : isLetter c = true) (cs : List Char) :
    (wordToken (String.ofList (c :: cs.takeWhile isLetterOrDigit))).Fits
      (c :: cs.takeWhile isLetterOrDigit) (cs.dropWhile isLetterOrDigit) where
  shape := wordToken_mem_pattern
    (mem_identifier.mpr ⟨c, _, rfl, hc, fun d hd => List.mem_takeWhile_imp hd⟩)
  longest := by
    intro w hfront hw
    rw [List.cons_append, List.takeWhile_append_dropWhile] at hfront
    obtain ⟨v, rfl, hv⟩ := hw.exists_cons hfront
    obtain ⟨hblank, hcomment⟩ := not_blank_of_letter hc
    rcases hw.of_cons hblank hcomment with ⟨_, hclass⟩ | ⟨_, hletter, _⟩ | ⟨_, hletter, _⟩
    · exact Nat.succ_le_succ (length_le_takeWhile hclass hv)
    · exact absurd hc (by simp [hletter])
    · exact absurd hc (by simp [hletter])
  word := fun _ => rfl

/-- **A symbol fits**: nothing longer starts with one. -/
theorem symbol_fits (s : Symbol) (rest : List Char) :
    (Token.symbol s).Fits [s.char] rest where
  shape := rfl
  longest := by
    intro w hfront hw
    obtain ⟨v, rfl, _⟩ := hw.exists_cons hfront
    have hblank : isBlank s.char = false := by cases s <;> decide
    have hcomment : s.char ≠ '#' := by cases s <;> decide
    have hletter : isLetter s.char = false := by cases s <;> decide
    rcases hw.of_cons hblank hcomment with ⟨hc, _⟩ | ⟨_, _, rfl⟩ | ⟨hc, _⟩
    · exact absurd hc (by simp [hletter])
    · exact Nat.le_refl _
    · exact absurd hc (by simp [Symbol.ofChar?_char])
  word := by
    intro h
    obtain ⟨c, v, hw, hc, _⟩ := mem_identifier.mp h
    rw [← (List.cons.inj hw).1] at hc
    cases s <;> exact absurd hc (by decide)

/-- Where no other pattern starts, a numeral that is at least as long is taken for every match. -/
theorem take_of_matches {c : Char} {cs w : List Char} (hblank : isBlank c = false)
    (hcomment : c ≠ '#') (hletter : isLetter c = false) (hsymbol : Symbol.ofChar? c = none)
    (hw : Matches w) (hfront : w <+: c :: cs) :
    ∃ n rest, Numeral.take (c :: cs) = some (n, rest) ∧ w.length ≤ n.text.length := by
  obtain ⟨v, rfl, _⟩ := hw.exists_cons hfront
  rcases hw.of_cons hblank hcomment with ⟨hc, _⟩ | ⟨hc, _⟩ | ⟨_, _, hnumber⟩
  · exact absurd hc (by simp [hletter])
  · exact absurd hc (by simp [hsymbol])
  · -- the match is a spelled numeral, and no more is left after the one that is taken
    obtain ⟨m, hm, htext⟩ := Numeral.mem_number_iff.mp hnumber
    obtain ⟨z, hz⟩ := hfront
    obtain ⟨n, rest, htake, hle⟩ := Numeral.take_longest hm z
    rw [htext, hz] at htake
    refine ⟨n, rest, htake, ?_⟩
    have hlength := congrArg List.length (hz.trans (Numeral.take_append htake).symm)
    rw [List.length_append, List.length_append] at hlength
    omega

/-- **A numeral fits**: a character that is no letter and no symbol starts no other match. -/
theorem numeral_fits {c : Char} {cs rest : List Char} {n : Numeral} (hblank : isBlank c = false)
    (hcomment : c ≠ '#') (hletter : isLetter c = false) (hsymbol : Symbol.ofChar? c = none)
    (htake : Numeral.take (c :: cs) = some (n, rest)) (v : Double) :
    (Token.number v).Fits n.text rest where
  shape := Numeral.mem_number_iff.mpr ⟨n, Numeral.take_spelled htake, rfl⟩
  longest := by
    intro w hfront hw
    rw [Numeral.take_append htake] at hfront
    obtain ⟨n', rest', htake', hle⟩ := take_of_matches hblank hcomment hletter hsymbol hw hfront
    rw [htake] at htake'
    obtain ⟨rfl, -⟩ := Prod.mk.inj (Option.some.inj htake')
    exact hle
  word := by
    intro h
    obtain ⟨c', v', hw, hc', _⟩ := mem_identifier.mp h
    have happend := Numeral.take_append htake
    rw [hw] at happend
    rw [(List.cons.inj happend).1, hletter] at hc'
    exact absurd hc' (by simp)

/-- **A stray character fits**: nothing that starts with it is a match. -/
theorem stray_fits {c : Char} {cs : List Char} (hblank : isBlank c = false) (hcomment : c ≠ '#')
    (hletter : isLetter c = false) (hsymbol : Symbol.ofChar? c = none)
    (htake : Numeral.take (c :: cs) = none) : (Piece.stray c).Fits cs := by
  intro w hfront hw
  obtain ⟨n, rest, htake', _⟩ := take_of_matches hblank hcomment hletter hsymbol hw hfront
  rw [htake] at htake'
  exact absurd htake' (by simp)

/-- **A comment fits**: it ends before the end of its line, or with the text. -/
theorem comment_fits (cs : List Char) :
    Filler (cs.dropWhile inComment) ('#' :: cs.takeWhile inComment) := by
  rw [← List.append_nil (cs.takeWhile inComment)]
  refine .comment ?_ ?_ .nil
  · intro h
    exact absurd (List.mem_takeWhile_imp h) (by decide)
  · intro c hc
    have hstop : inComment c = false := by
      have := List.head?_dropWhile_not inComment cs
      rw [List.nil_append] at hc
      rw [Option.mem_def.mp hc] at this
      simpa using this
    simpa [inComment] using hstop

/-- **The first piece of every text is what it is taken for**, and the longest match. -/
theorem firstPiece_fits (c : Char) (cs : List Char) :
    (firstPiece c cs).1.Fits (firstPiece c cs).2 := by
  unfold firstPiece run
  split_ifs with hblank hcomment hletter
  · refine Filler.of_blanks (List.forall_mem_cons.mpr ⟨hblank, ?_⟩)
    exact fun d hd => List.mem_takeWhile_imp hd
  · rw [hcomment]
    exact comment_fits cs
  · exact run_fits hletter cs
  · have hblank' : isBlank c = false := by simpa using hblank
    have hletter' : isLetter c = false := by simpa using hletter
    split
    · rename_i s hs
      rw [← Symbol.char_of_ofChar? hs]
      exact symbol_fits s cs
    · rename_i n rest hs htake
      exact numeral_fits hblank' hcomment hletter' hs htake _
    · rename_i hs htake
      exact stray_fits hblank' hcomment hletter' hs htake

end Stencil.Source
