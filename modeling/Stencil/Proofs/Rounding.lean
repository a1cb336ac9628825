import Mathlib
import Stencil.Number.Decimal

/-!
# Rounding

A ratio is *rounded* to a word if it lies between the midpoints to the word's two neighbours, the
midpoints themselves included for an even word (`Layout.Rounds`). A ratio is rounded to one word at
most (`Rounds.unique`), no word is nearer to it (`Rounds.near`), and `Layout.nearest` finds it
(`nearest_eq_of_rounds`). Every finite word has a shortest decimal that is rounded to it
(`rounds_shortest`), and so it is read back (`nearest_shortest`).

A word is a floating-point number without its sign. Its value is counted in units, the smallest step
of the layout, so that it is a natural number (`Layout.units`). Everything is then about natural
numbers: the units of neighbours differ by a power of two (`units_succ`), and a fraction is compared
with a midpoint by multiplying out.

The search for the nearest word goes by the length of the quotient: it cuts off as many bits as the
layout cannot hold (`cut_bounds`) and rounds at the cut (`rounds_step`). That a carry can lead to
the next binade is no case of its own, since words go on across it.

The last part is about magnitudes. A decimal with a very large or a very small power of ten is
settled without its power ever being computed, because it is beyond every word
(`pow_mul_den_le_num`) or below half of the first one (`twice_num_lt_den`).
-/

namespace Stencil

theorem Decimal.den_pos (d : Decimal) : 0 < d.den := Nat.pow_pos (by norm_num)

namespace Layout

variable {l : Layout}

/-! ## Units -/

theorem binade_pos (l : Layout) : 0 < l.binade := Nat.two_pow_pos _

/-- A word is its shift in binades and its significand. -/
theorem shift_mul_binade_add (l : Layout) (word : Nat) :
    l.shift word * l.binade + l.significand word = word := by
  have hpos := l.binade_pos
  unfold shift significand
  split_ifs with h
  · rw [Nat.div_eq_of_lt h]
    simp
  · have hdiv := Nat.div_add_mod word l.binade
    have hone : 1 ≤ word / l.binade := (Nat.one_le_div_iff hpos).mpr (by omega)
    obtain ⟨q, hq⟩ := Nat.exists_eq_add_of_le' hone
    rw [hq] at hdiv ⊢
    rw [Nat.add_sub_cancel]
    calc q * l.binade + (l.binade + word % l.binade)
        = l.binade * (q + 1) + word % l.binade := by ring
      _ = word := hdiv

theorem significand_lt (l : Layout) (word : Nat) : l.significand word < 2 * l.binade := by
  have hmod := Nat.mod_lt word l.binade_pos
  unfold significand
  split_ifs with h <;> omega

/-- Only the words of the first binades are not shifted; the others have a leading one. -/
theorem shift_eq_zero_or (l : Layout) (word : Nat) :
    l.shift word = 0 ∨ l.binade ≤ l.significand word := by
  unfold shift significand
  split_ifs with h
  · left
    rw [Nat.div_eq_of_lt h]
  · right
    omega

/-- What a word is worth, by any way to write it as binades and a significand. A significand of two
    binades is the first one of the next shift. -/
theorem units_add (l : Layout) {k m : Nat} (hk : k = 0 ∨ l.binade ≤ m) (hm : m ≤ 2 * l.binade) :
    l.units (k * l.binade + m) = m * 2 ^ k := by
  have hpos := l.binade_pos
  unfold units shift significand
  rw [Nat.pow_eq]
  rcases Nat.lt_or_ge m l.binade with hsmall | hlarge
  · obtain rfl : k = 0 := by omega
    have hword : 0 * l.binade + m < l.binade := by omega
    rw [if_pos hword, Nat.div_eq_of_lt hword]
    simp
  have hword : ¬ k * l.binade + m < l.binade := by omega
  rw [if_neg hword]
  obtain ⟨r, rfl⟩ := Nat.exists_eq_add_of_le hlarge
  have hsum : k * l.binade + (l.binade + r) = r + l.binade * (k + 1) := by ring
  rw [hsum, Nat.add_mul_mod_self_left, Nat.add_mul_div_left _ _ hpos]
  rcases Nat.lt_or_ge r l.binade with hr | hr
  · rw [Nat.mod_eq_of_lt hr, Nat.div_eq_of_lt hr]
    simp
  · obtain rfl : r = l.binade := by omega
    rw [Nat.mod_self, Nat.div_self hpos, Nat.add_sub_cancel_left, pow_succ]
    ring

theorem units_eq (l : Layout) (word : Nat) :
    l.units word = l.significand word * 2 ^ l.shift word := rfl

/-- The next word is worth a power of two more. -/
theorem units_succ (l : Layout) (word : Nat) :
    l.units (word + 1) = l.units word + 2 ^ l.shift word := by
  have hlt := l.significand_lt word
  have hnext : word + 1 = l.shift word * l.binade + (l.significand word + 1) := by
    rw [← Nat.add_assoc, shift_mul_binade_add]
  have hshift : l.shift word = 0 ∨ l.binade ≤ l.significand word + 1 := by
    have h := l.shift_eq_zero_or word
    omega
  rw [hnext, units_add l hshift (by omega), units_eq]
  ring

theorem units_strictMono (l : Layout) : StrictMono l.units := by
  refine strictMono_nat_of_lt_succ fun word => ?_
  rw [units_succ]
  exact Nat.lt_add_of_pos_right (Nat.two_pow_pos _)

theorem units_zero (l : Layout) : l.units 0 = 0 := by
  have h := units_add l (k := 0) (m := 0) (Or.inl rfl) (Nat.zero_le _)
  simpa using h

/-! ## Rounding -/

/-- **The ratio `scaled / den`, in units, is rounded to the word**: it is between the midpoints to
    the neighbours, and strictly so if the word is odd. -/
structure Rounds (l : Layout) (word scaled den : Nat) : Prop where
  low : (l.units (word - 1) + l.units word) * den ≤ 2 * scaled
  high : 2 * scaled ≤ (l.units word + l.units (word + 1)) * den
  even_low : (l.units (word - 1) + l.units word) * den = 2 * scaled → word % 2 = 0
  even_high : 2 * scaled = (l.units word + l.units (word + 1)) * den → word % 2 = 0

theorem reads_iff (l : Layout) (word : Nat) (d : Decimal) :
    l.reads word d = true ↔ l.Rounds word (d.num * 2 ^ l.scale) d.den := by
  unfold reads
  rw [Nat.pow_eq, Nat.mul_assoc]
  split_ifs with h
  · simp only [Bool.and_eq_true, decide_eq_true_eq]
    exact ⟨fun ⟨hlow, hhigh⟩ => ⟨hlow, hhigh, fun _ => h, fun _ => h⟩, fun hr => ⟨hr.low, hr.high⟩⟩
  · simp only [Bool.and_eq_true, decide_eq_true_eq]
    constructor
    · rintro ⟨hlow, hhigh⟩
      exact ⟨hlow.le, hhigh.le, fun he => absurd he hlow.ne, fun he => absurd he hhigh.ne⟩
    · intro hr
      exact ⟨lt_of_le_of_ne hr.low fun he => h (hr.even_low he),
        lt_of_le_of_ne hr.high fun he => h (hr.even_high he)⟩

/-- A ratio is not rounded to two words, one after the other. -/
theorem Rounds.not_lt {word word' scaled den : Nat} (h : l.Rounds word scaled den)
    (h' : l.Rounds word' scaled den) (hden : 0 < den) : ¬ word < word' := by
  intro hlt
  have hmono := l.units_strictMono
  have hlow := hmono.monotone (show word ≤ word' - 1 by omega)
  have hhigh := hmono.monotone (show word + 1 ≤ word' by omega)
  -- the upper midpoint of the one is not above the lower midpoint of the other, so they are one
  have hmid : (l.units word + l.units (word + 1)) * den
      ≤ (l.units (word' - 1) + l.units word') * den :=
    Nat.mul_le_mul_right den (Nat.add_le_add hlow hhigh)
  have hsame : (l.units word + l.units (word + 1)) * den
      = (l.units (word' - 1) + l.units word') * den :=
    le_antisymm hmid (h'.low.trans h.high)
  have hsum := Nat.eq_of_mul_eq_mul_right hden hsame
  have hnext : word + 1 = word' := hmono.injective (by omega)
  have heven := h.even_high (le_antisymm h.high (hmid.trans h'.low))
  have heven' := h'.even_low (le_antisymm h'.low (h.high.trans hmid))
  omega

/-- **A ratio is rounded to one word at most.** -/
theorem Rounds.unique {word word' scaled den : Nat} (h : l.Rounds word scaled den)
    (h' : l.Rounds word' scaled den) (hden : 0 < den) : word = word' :=
  le_antisymm (Nat.le_of_not_lt (h'.not_lt h hden)) (Nat.le_of_not_lt (h.not_lt h' hden))

/-- What a word is worth is rounded to it. -/
theorem rounds_of_eq {word scaled den : Nat} (hden : 0 < den)
    (h : scaled = l.units word * den) : l.Rounds word scaled den := by
  have hmono := l.units_strictMono
  have hhigh : l.units word < l.units (word + 1) := hmono (Nat.lt_succ_self word)
  have hlow : l.units (word - 1) ≤ l.units word := hmono.monotone (Nat.sub_le _ _)
  have htwice : 2 * scaled = (l.units word + l.units word) * den := by rw [h]; ring
  refine ⟨?_, ?_, fun he => ?_, fun he => ?_⟩
  · rw [htwice]
    exact Nat.mul_le_mul_right den (by omega)
  · rw [htwice]
    exact Nat.mul_le_mul_right den (by omega)
  · -- only zero is its own neighbour
    have hsum := Nat.eq_of_mul_eq_mul_right hden (he.trans htwice)
    have hsame := hmono.injective (show l.units (word - 1) = l.units word by omega)
    omega
  · have hsum := Nat.eq_of_mul_eq_mul_right hden (htwice.symm.trans he)
    omega

/-- Rounding looks at a ratio, not at how it is written. -/
theorem Rounds.of_ratio {word scaled den scaled' den' : Nat}
    (h : l.Rounds word scaled den) (hden : 0 < den) (hden' : 0 < den')
    (hratio : scaled' * den = scaled * den') : l.Rounds word scaled' den' := by
  have hmove : ∀ a, a * den' * den = a * den * den' := fun a => Nat.mul_right_comm a den' den
  have htwice : 2 * scaled' * den = 2 * scaled * den' := by
    rw [Nat.mul_assoc, hratio, Nat.mul_assoc]
  refine ⟨?_, ?_, ?_, ?_⟩
  · apply Nat.le_of_mul_le_mul_right _ hden
    rw [hmove, htwice]
    exact Nat.mul_le_mul_right _ h.low
  · apply Nat.le_of_mul_le_mul_right _ hden
    rw [hmove, htwice]
    exact Nat.mul_le_mul_right _ h.high
  · intro heq
    apply h.even_low
    apply Nat.eq_of_mul_eq_mul_right hden'
    rw [← hmove, heq, htwice]
  · intro heq
    apply h.even_high
    apply Nat.eq_of_mul_eq_mul_right hden'
    rw [← hmove, ← heq, htwice]

theorem units_one (l : Layout) : l.units 1 = 1 := by
  rw [l.units_succ 0, l.units_zero]
  simp [shift]

/-- A ratio is rounded to zero up to half a unit. -/
theorem rounds_zero_iff {scaled den : Nat} : l.Rounds 0 scaled den ↔ 2 * scaled ≤ den := by
  have hmid : (l.units 0 + l.units (0 + 1)) * den = den := by
    rw [l.units_zero, l.units_one, Nat.zero_add, Nat.one_mul]
  constructor
  · intro h
    exact hmid ▸ h.high
  · intro hle
    refine ⟨?_, hmid.symm ▸ hle, fun _ => rfl, fun _ => rfl⟩
    rw [show 0 - 1 = 0 from rfl, l.units_zero, Nat.zero_mul]
    exact Nat.zero_le _

/-- **Which words a ratio is rounded to at most**: those whose upper midpoint it is not above; the
    midpoint itself goes to the even word. -/
theorem Rounds.le_iff {word scaled den : Nat} (h : l.Rounds word scaled den) (hden : 0 < den)
    (w : Nat) :
    word ≤ w ↔ 2 * scaled < (l.units w + l.units (w + 1)) * den
      ∨ 2 * scaled = (l.units w + l.units (w + 1)) * den ∧ w % 2 = 0 := by
  have hmono := l.units_strictMono
  constructor
  · intro hle
    rcases Nat.lt_or_eq_of_le hle with hlt | rfl
    · left
      have hsum : l.units word + l.units (word + 1) < l.units w + l.units (w + 1) :=
        Nat.add_lt_add (hmono hlt) (hmono (Nat.succ_lt_succ hlt))
      exact h.high.trans_lt (Nat.mul_lt_mul_of_pos_right hsum hden)
    · rcases Nat.lt_or_eq_of_le h.high with hlt | heq
      · exact Or.inl hlt
      · exact Or.inr ⟨heq, h.even_high heq⟩
  · intro hcut
    by_contra hgt
    -- the lower midpoint of the word is not below the cut, so it is the cut and the word is odd
    have hsum : l.units w + l.units (w + 1) ≤ l.units (word - 1) + l.units word :=
      Nat.add_le_add (hmono.monotone (by omega)) (hmono.monotone (by omega))
    have hmid := Nat.mul_le_mul_right den hsum
    have hlow := h.low
    rcases hcut with hlt | ⟨heq, heven⟩
    · omega
    · have hsame := Nat.eq_of_mul_eq_mul_right hden (le_antisymm hmid (by omega))
      have heven' := h.even_low (by omega)
      have hlast : l.units w = l.units (word - 1) := by
        have hfirst := hmono.monotone (show w ≤ word - 1 by omega)
        have hsecond := hmono.monotone (show w + 1 ≤ word by omega)
        omega
      have hword := hmono.injective hlast
      omega

/-- **No word is nearer to a ratio than the one that it is rounded to.** -/
theorem Rounds.near {word scaled den : Nat} (h : l.Rounds word scaled den) (w : Nat) :
    ((l.units word * den : Nat) - scaled : Int).natAbs
      ≤ ((l.units w * den : Nat) - scaled : Int).natAbs := by
  have hmono := l.units_strictMono.monotone
  have hlow := h.low
  have hhigh := h.high
  rw [Nat.add_mul] at hlow hhigh
  rcases Nat.lt_trichotomy w word with hlt | rfl | hgt
  · have hfirst := Nat.mul_le_mul_right den (hmono (show w ≤ word - 1 by omega))
    have hsecond := Nat.mul_le_mul_right den (hmono (show word - 1 ≤ word by omega))
    omega
  · exact Nat.le_refl _
  · have hfirst := Nat.mul_le_mul_right den (hmono (show word ≤ word + 1 by omega))
    have hsecond := Nat.mul_le_mul_right den (hmono (show word + 1 ≤ w by omega))
    omega

/-! ## The nearest word -/

/-- The shift at which a quotient is cut, and what is left of it. -/
theorem cut_bounds (l : Layout) (q : Nat) :
    let k := q.log2 - (l.precision - 1)
    (k = 0 ∨ l.binade ≤ q / 2 ^ k) ∧ q / 2 ^ k < 2 * l.binade := by
  intro k
  have hbinade : l.binade = 2 ^ (l.precision - 1) := rfl
  rw [hbinade]
  constructor
  · rcases Nat.eq_zero_or_pos k with hk | hk
    · exact Or.inl hk
    · right
      have hq : q ≠ 0 := by
        rintro rfl
        simp [k] at hk
      have hle := Nat.log2_self_le hq
      rw [Nat.le_div_iff_mul_le (Nat.two_pow_pos k), ← pow_add]
      exact (Nat.pow_le_pow_right (by norm_num) (by omega)).trans hle
  · rw [Nat.div_lt_iff_lt_mul (Nat.two_pow_pos k), ← pow_succ', ← pow_add]
    exact Nat.lt_log2_self.trans_le (Nat.pow_le_pow_right (by norm_num) (by omega))

section Neighbours

variable {w den base step r : Nat} (hlower : l.units w * den = base)
  (hupper : l.units (w + 1) * den = base + step)

include hlower hupper

/-- A ratio in the lower half between two words is rounded to the lower one. -/
theorem rounds_lower (hden : 0 < den) (hle : 2 * r ≤ step) (htie : 2 * r = step → w % 2 = 0) :
    l.Rounds w (base + r) den := by
  have hmono := l.units_strictMono
  have hmid : (l.units w + l.units (w + 1)) * den = 2 * base + step := by
    rw [Nat.add_mul, hlower, hupper]
    omega
  have hbelow : l.units (w - 1) * den ≤ base := by
    rw [← hlower]
    exact Nat.mul_le_mul_right den (hmono.monotone (Nat.sub_le _ _))
  have hbelow' : w % 2 = 1 → l.units (w - 1) * den < base := by
    intro hodd
    rw [← hlower]
    exact Nat.mul_lt_mul_of_pos_right (hmono (by omega)) hden
  refine ⟨?_, ?_, fun he => ?_, fun he => ?_⟩
  · rw [Nat.add_mul, hlower]; omega
  · rw [hmid]; omega
  · -- an odd word is no lowest one, so the midpoint below it is less than the word
    rw [Nat.add_mul, hlower] at he
    by_contra hodd
    have hlt := hbelow' (by omega)
    omega
  · rw [hmid] at he
    exact htie (by omega)

/-- A ratio in the upper half between two words is rounded to the upper one. -/
theorem rounds_upper (hden : 0 < den) (hr : r < step) (hle : step ≤ 2 * r)
    (htie : 2 * r = step → (w + 1) % 2 = 0) : l.Rounds (w + 1) (base + r) den := by
  have hmid : (l.units w + l.units (w + 1)) * den = 2 * base + step := by
    rw [Nat.add_mul, hlower, hupper]
    omega
  have habove : base + step < l.units (w + 1 + 1) * den := by
    rw [← hupper]
    exact Nat.mul_lt_mul_of_pos_right (l.units_strictMono (Nat.lt_succ_self _)) hden
  refine ⟨?_, ?_, fun he => ?_, fun he => ?_⟩
  · rw [Nat.add_sub_cancel, hmid]; omega
  · rw [Nat.add_mul, hupper]; omega
  · rw [Nat.add_sub_cancel, hmid] at he
    exact htie (by omega)
  · rw [Nat.add_mul, hupper] at he
    omega

end Neighbours

/-- A significand and a remainder are rounded to the significand, to the next one, or to the even one
    of both, by where the remainder is. -/
theorem rounds_step (heven : l.binade % 2 = 0) {k m den r : Nat} (hden : 0 < den)
    (hk : k = 0 ∨ l.binade ≤ m) (hm : m < 2 * l.binade) (hr : r < den * 2 ^ k) :
    l.Rounds
      (k * l.binade + if den * 2 ^ k < 2 * r then m + 1
        else if 2 * r = den * 2 ^ k then m + m % 2 else m)
      (m * (den * 2 ^ k) + r) den := by
  have hparity : ∀ n, (k * l.binade + n) % 2 = n % 2 := by
    intro n
    rw [Nat.add_mod, Nat.mul_mod, heven]
    simp
  have hlower : l.units (k * l.binade + m) * den = m * (den * 2 ^ k) := by
    rw [units_add l hk hm.le]
    ring
  have hupper : l.units (k * l.binade + m + 1) * den = m * (den * 2 ^ k) + den * 2 ^ k := by
    rw [Nat.add_assoc, units_add l (by omega) (by omega)]
    ring
  split_ifs with hover htie
  · exact rounds_upper hlower hupper hden hr hover.le fun he => absurd he.symm hover.ne
  · rcases Nat.mod_two_eq_zero_or_one m with hzero | hone
    · rw [hzero, Nat.add_zero]
      exact rounds_lower hlower hupper hden htie.le fun _ => by rw [hparity, hzero]
    · rw [hone]
      refine rounds_upper hlower hupper hden hr htie.ge fun _ => ?_
      show (k * l.binade + (m + 1)) % 2 = 0
      rw [hparity]
      omega
  · exact rounds_lower hlower hupper hden (by omega) fun he => absurd he htie

/-- Every ratio is rounded to a word, which is the nearest one if it is finite. -/
theorem exists_rounds (heven : l.binade % 2 = 0) (num : Nat) {den : Nat} (hden : 0 < den) :
    ∃ word, l.Rounds word (num * 2 ^ l.scale) den ∧ l.nearest num den = min l.infinity word := by
  unfold nearest
  simp only [Nat.pow_eq]
  set scaled := num * 2 ^ l.scale
  set k := (scaled / den).log2 - (l.precision - 1)
  obtain ⟨hk, hm⟩ := l.cut_bounds (scaled / den)
  rw [Nat.div_div_eq_div_mul] at hk hm
  have hr := Nat.mod_lt scaled (Nat.mul_pos hden (Nat.two_pow_pos k))
  have hrounds := rounds_step heven hden hk hm hr
  have hsplit : scaled / (den * 2 ^ k) * (den * 2 ^ k) + scaled % (den * 2 ^ k) = scaled := by
    rw [Nat.mul_comm]
    exact Nat.div_add_mod _ _
  rw [hsplit] at hrounds
  exact ⟨_, hrounds, rfl⟩

/-- **The nearest word** is the one that the ratio is rounded to, if it is finite. -/
theorem nearest_eq_of_rounds (heven : l.binade % 2 = 0) {word num den : Nat} (hden : 0 < den)
    (h : l.Rounds word (num * 2 ^ l.scale) den) : l.nearest num den = min l.infinity word := by
  obtain ⟨word', hrounds, hnearest⟩ := exists_rounds heven num hden
  rw [hnearest, hrounds.unique h hden]

/-! ## Fewest digits -/

/-- On the finest grid the word itself is found. -/
theorem rounds_floorAt (l : Layout) (word : Nat) :
    let d := l.floorAt word (-l.scale)
    l.Rounds word (d.num * 2 ^ l.scale) d.den := by
  intro d
  have hup : (-(l.scale : Int)).toNat = 0 := by omega
  have hdown : (-(-(l.scale : Int))).toNat = l.scale := by omega
  have hden : d.den = 10 ^ l.scale := by
    simp only [d, floorAt, Decimal.den, hdown, Nat.pow_eq]
  have hten : 10 ^ l.scale = 5 ^ l.scale * 2 ^ l.scale := by
    rw [← Nat.mul_pow]
  have hnum : d.num = l.units word * 5 ^ l.scale := by
    simp only [d, floorAt, Decimal.num, hup, hdown, Nat.pow_eq, pow_zero, Nat.mul_one]
    rw [hten, ← Nat.mul_assoc, Nat.mul_div_cancel _ (Nat.two_pow_pos _)]
  refine rounds_of_eq d.den_pos ?_
  rw [hnum, hden, hten, Nat.mul_assoc]

/-- A decimal that was found on a grid rounds to the word it was found for. -/
theorem rounds_of_onGrid {word : Nat} {exponent : Int} {d : Decimal}
    (h : l.onGrid word exponent = some d) : l.Rounds word (d.num * 2 ^ l.scale) d.den := by
  rw [← reads_iff]
  unfold onGrid at h
  dsimp only at h
  split at h
  · rename_i hlower _
    injection h with h
    exact h ▸ hlower
  · rename_i _ hupper
    injection h with h
    exact h ▸ hupper
  · rename_i hlower hupper
    injection h with h
    split_ifs at h
    · exact h ▸ hlower
    · exact h ▸ hupper
  · exact absurd h (by simp)

/-- A search that can get down to the finest grid finds a decimal that is rounded to the word. -/
theorem rounds_searchFrom (l : Layout) (word fuel : Nat) : ∀ exponent : Int,
    exponent - fuel = -l.scale →
      l.Rounds word ((l.searchFrom word fuel exponent).num * 2 ^ l.scale)
        (l.searchFrom word fuel exponent).den := by
  induction fuel with
  | zero =>
    intro exponent h
    obtain rfl : exponent = -l.scale := by omega
    exact l.rounds_floorAt word
  | succ fuel ih =>
    intro exponent h
    unfold searchFrom
    cases hgrid : l.onGrid word exponent with
    | some d => exact rounds_of_onGrid hgrid
    | none => exact ih (exponent - 1) (by omega)

/-- The search starts above the finest grid, on which every word lies. -/
theorem neg_scale_le_ceilingExponent (l : Layout) (word : Nat) :
    -(l.scale : Int) ≤ l.ceilingExponent word := by
  unfold ceilingExponent
  dsimp only
  split_ifs <;> omega

/-- **The shortest decimal of a word is rounded to it.** -/
theorem rounds_shortest (l : Layout) (word : Nat) :
    l.Rounds word ((l.shortest word).num * 2 ^ l.scale) (l.shortest word).den := by
  have htop := l.neg_scale_le_ceilingExponent word
  unfold shortest
  exact l.rounds_searchFrom word _ _ (by omega)

/-! ## Words that are read -/

/-- Finite words are worth less than two to the number of exponents and significand bits. -/
theorem units_lt_of_le_infinity (l : Layout) {word : Nat} (h : word ≤ l.infinity) :
    l.units word < 2 ^ (l.precision + 2 ^ l.exponentBits) := by
  have hshift : l.shift word ≤ 2 ^ l.exponentBits - 1 := by
    have hdiv : word / l.binade ≤ 2 ^ l.exponentBits - 1 :=
      (Nat.div_le_div_right h).trans_eq (Nat.mul_div_cancel _ l.binade_pos)
    unfold shift
    omega
  have hbinade : 2 * l.binade = 2 ^ (l.precision - 1 + 1) := by
    rw [pow_succ']
    rfl
  have hpos : 0 < 2 ^ l.exponentBits := Nat.two_pow_pos _
  calc l.units word = l.significand word * 2 ^ l.shift word := rfl
    _ < 2 * l.binade * 2 ^ l.shift word :=
        Nat.mul_lt_mul_of_pos_right (l.significand_lt word) (Nat.two_pow_pos _)
    _ = 2 ^ (l.precision - 1 + 1 + l.shift word) := by rw [hbinade, ← pow_add]
    _ ≤ 2 ^ (l.precision + 2 ^ l.exponentBits) := Nat.pow_le_pow_right (by norm_num) (by omega)

/-- The power of ten from which on a decimal is not written out is above all finite words. -/
theorem two_pow_le_ten_pow (l : Layout) :
    2 ^ (l.precision + 2 ^ l.exponentBits) ≤ 10 ^ (2 ^ l.exponentBits + 1) * 2 ^ l.scale := by
  have hhalf : 0 < 2 ^ (l.exponentBits - 1) := Nat.two_pow_pos _
  have hpos : 0 < 2 ^ l.exponentBits := Nat.two_pow_pos _
  have hscale : l.scale = 2 ^ (l.exponentBits - 1) + l.precision - 3 := rfl
  have height : 2 ^ (3 * (2 ^ l.exponentBits + 1)) ≤ 10 ^ (2 ^ l.exponentBits + 1) := by
    rw [pow_mul]
    exact Nat.pow_le_pow_left (by norm_num) _
  calc 2 ^ (l.precision + 2 ^ l.exponentBits)
      ≤ 2 ^ (3 * (2 ^ l.exponentBits + 1) + l.scale) :=
        Nat.pow_le_pow_right (by norm_num) (by omega)
    _ = 2 ^ (3 * (2 ^ l.exponentBits + 1)) * 2 ^ l.scale := pow_add _ _ _
    _ ≤ 10 ^ (2 ^ l.exponentBits + 1) * 2 ^ l.scale := Nat.mul_le_mul_right _ height

end Layout

namespace Decimal

theorem digits_length_pos (d : Decimal) : 0 < d.digits.length :=
  List.length_pos_iff.mpr Nat.toDigits_ne_nil

theorem coefficient_lt (d : Decimal) : d.coefficient < 10 ^ d.digits.length :=
  (Nat.length_toDigits_le_iff (by norm_num) d.digits_length_pos).mp le_rfl

theorem le_coefficient (d : Decimal) (h : d.coefficient ≠ 0) :
    10 ^ (d.digits.length - 1) ≤ d.coefficient := by
  have hpos := d.digits_length_pos
  rcases Nat.eq_zero_or_pos (d.digits.length - 1) with hone | hmore
  · rw [hone]
    omega
  · by_contra hlt
    have hlen := (Nat.length_toDigits_le_iff (by norm_num) hmore).mpr (Nat.lt_of_not_le hlt)
    have hdigits : d.digits.length = (Nat.toDigits 10 d.coefficient).length := rfl
    omega

/-- A decimal is not below the power of ten of its first digit. -/
theorem pow_mul_den_le_num (d : Decimal) (hd : d.coefficient ≠ 0) {a : Nat}
    (ha : (a : Int) ≤ d.leading) : 10 ^ a * d.den ≤ d.num := by
  have hlow := d.le_coefficient hd
  have hpos := d.digits_length_pos
  unfold leading at ha
  unfold num den
  rw [Nat.pow_eq, Nat.pow_eq, ← pow_add]
  calc 10 ^ (a + (-d.exponent).toNat)
      ≤ 10 ^ (d.digits.length - 1 + d.exponent.toNat) :=
        Nat.pow_le_pow_right (by norm_num) (by omega)
    _ = 10 ^ (d.digits.length - 1) * 10 ^ d.exponent.toNat := pow_add _ _ _
    _ ≤ d.coefficient * 10 ^ d.exponent.toNat := Nat.mul_le_mul_right _ hlow

/-- A decimal is below the power of ten before its first digit. -/
theorem num_mul_pow_lt_den (d : Decimal) {a : Nat} (ha : d.leading + 1 ≤ -(a : Int)) :
    d.num * 10 ^ a < d.den := by
  have hhigh := d.coefficient_lt
  have hpos := d.digits_length_pos
  unfold leading at ha
  unfold num den
  rw [Nat.pow_eq, Nat.pow_eq]
  have hexponent : d.exponent.toNat = 0 := by omega
  rw [hexponent, pow_zero, Nat.mul_one]
  calc d.coefficient * 10 ^ a < 10 ^ d.digits.length * 10 ^ a :=
        Nat.mul_lt_mul_of_pos_right hhigh (by positivity)
    _ = 10 ^ (d.digits.length + a) := (pow_add _ _ _).symm
    _ ≤ 10 ^ (-d.exponent).toNat := Nat.pow_le_pow_right (by norm_num) (by omega)

variable {l : Layout} {word : Nat}

/-- A decimal that is not written out for being small is below half a unit. -/
theorem twice_num_lt_den {d : Decimal} (hsmall : d.leading + 1 < -(l.scale : Int)) :
    2 * (d.num * 2 ^ l.scale) < d.den := by
  have hlt := d.num_mul_pow_lt_den (a := l.scale + 1) (by push_cast; omega)
  have hpow : 2 * 2 ^ l.scale ≤ 10 ^ (l.scale + 1) := by
    rw [← pow_succ']
    exact Nat.pow_le_pow_left (by norm_num) _
  calc 2 * (d.num * 2 ^ l.scale) = d.num * (2 * 2 ^ l.scale) := by ring
    _ ≤ d.num * 10 ^ (l.scale + 1) := Nat.mul_le_mul_left _ hpow
    _ < d.den := hlt

/-- A decimal that is not written out for being large is rounded to no finite word. -/
theorem infinity_le_of_rounds {d : Decimal} (hd : d.coefficient ≠ 0)
    (hlarge : ((2 ^ l.exponentBits : Nat) : Int) < d.leading)
    (h : l.Rounds word (d.num * 2 ^ l.scale) d.den) : l.infinity ≤ word := by
  by_contra hfin
  have hfin : word < l.infinity := Nat.lt_of_not_le hfin
  have hge := d.pow_mul_den_le_num hd (a := 2 ^ l.exponentBits + 1) (by push_cast at *; omega)
  have hword := l.units_lt_of_le_infinity hfin.le
  have hnext : l.units (word + 1) < _ := l.units_lt_of_le_infinity hfin
  have hnum : 10 ^ (2 ^ l.exponentBits + 1) * 2 ^ l.scale * d.den ≤ d.num * 2 ^ l.scale := by
    rw [Nat.mul_right_comm]
    exact Nat.mul_le_mul_right _ hge
  have hsum : (l.units word + l.units (word + 1)) * d.den
      < 2 * (2 ^ (l.precision + 2 ^ l.exponentBits) * d.den) := by
    rw [← Nat.mul_assoc]
    exact Nat.mul_lt_mul_of_pos_right (by omega) d.den_pos
  have hmax := Nat.mul_le_mul_right d.den l.two_pow_le_ten_pow
  have hhigh := h.high
  omega

/-- **Every decimal is rounded to a word**, and read as that word or as infinity. -/
theorem exists_rounds (heven : l.binade % 2 = 0) (d : Decimal) :
    ∃ word, l.Rounds word (d.num * 2 ^ l.scale) d.den ∧ d.nearest l = min l.infinity word := by
  unfold nearest
  split_ifs with hsmall hlarge
  · refine ⟨0, Layout.rounds_zero_iff.mpr ?_, (Nat.min_zero _).symm⟩
    rcases hsmall with hzero | hsmall
    · rw [num, hzero, Nat.zero_mul, Nat.zero_mul]
      exact Nat.zero_le _
    · exact (twice_num_lt_den hsmall).le
  · obtain ⟨word, hrounds, _⟩ := Layout.exists_rounds heven d.num d.den_pos
    have hle := infinity_le_of_rounds (fun hzero => hsmall (Or.inl hzero)) (by simpa using hlarge)
      hrounds
    exact ⟨word, hrounds, (Nat.min_eq_left hle).symm⟩
  · exact Layout.exists_rounds heven d.num d.den_pos

/-- **A decimal is read as the finite word that it is rounded to.** -/
theorem nearest_eq_of_rounds (heven : l.binade % 2 = 0) (hfin : word < l.infinity) {d : Decimal}
    (h : l.Rounds word (d.num * 2 ^ l.scale) d.den) : d.nearest l = word := by
  obtain ⟨word', hrounds, hnearest⟩ := exists_rounds heven d
  rw [hnearest, hrounds.unique h d.den_pos]
  exact Nat.min_eq_right hfin.le

/-- **Every finite word is read back from its shortest decimal.** -/
theorem nearest_shortest (heven : l.binade % 2 = 0) (hfin : word < l.infinity) :
    (l.shortest word).nearest l = word :=
  nearest_eq_of_rounds heven hfin (l.rounds_shortest word)

end Decimal

end Stencil
