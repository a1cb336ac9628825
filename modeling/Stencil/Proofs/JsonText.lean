import Mathlib
import Stencil.Proofs.Numerals
import Stencil.Text.Json

/-!
# JSON texts tell their values

The compact text of a JSON value determines the value (`Json.compact_injective`). The proof goes
over the value: a value can be told from the front of a text, up to a comma or a closing bracket,
and so can the characters of a string, up to the closing quote.

That is stronger than to be injective, and it is what an induction needs: inside a list a value is
followed by other values, and nothing marks where it ends but its own text. `Told` says it of
values, `ItemsTold` and `MembersTold` of what stands in lists and objects. The first character tells
the kind of a value (`compact_cons`), so that only values of the same kind are ever compared.

Numbers are the one kind whose end is not marked. A comma or a bracket is no part of a number, and
one of these always follows (`Stops`).
-/

namespace Stencil.Json

/-! ## Strings -/

/-- The number below sixteen that a hexadecimal digit stands for. -/
def hexValue (c : Char) : Nat := ((List.range 16).find? (hexDigit · == c)).getD 0

/-- The character that a backslash and a letter stand for. -/
def unescapeLetter (c : Char) : Char :=
  if c = 'b' then '\x08' else if c = 'f' then '\x0c' else if c = 'n' then '\n'
  else if c = 'r' then '\r' else if c = 't' then '\t' else c

/-- The first character of a string's inside, and what follows it. -/
def unescape : List Char → Option (Char × List Char)
  | '\\' :: 'u' :: '0' :: '0' :: high :: low :: rest =>
    some (Char.ofNat (16 * hexValue high + hexValue low), rest)
  | '\\' :: c :: rest => some (unescapeLetter c, rest)
  | '"' :: _ => none
  | c :: rest => some (c, rest)
  | [] => none

theorem hexValue_hexDigit : ∀ n, n < 16 → hexValue (hexDigit n) = n := by decide

/-- A hexadecimal digit stands for the last four bits of a number. -/
theorem hexDigit_mod (n : Nat) : hexDigit (n % 16) = hexDigit n := by
  rw [hexDigit, Nat.mod_mod, hexDigit]

/-- **A character can be told from how it is escaped**, from the front of any text. -/
theorem unescape_escape (c : Char) (rest : List Char) :
    unescape ((escape c).toList ++ rest) = some (c, rest) := by
  unfold escape
  split_ifs with hquote hslash hb hf hn hr ht hcontrol
  · rw [hquote]; rfl
  · rw [hslash]; rfl
  · rw [hb]; rfl
  · rw [hf]; rfl
  · rw [hn]; rfl
  · rw [hr]; rfl
  · rw [ht]; rfl
  · have hhigh : hexValue (hexDigit (c.toNat / 16)) = c.toNat / 16 :=
      hexValue_hexDigit _ (by omega)
    have hlow : hexValue (hexDigit c.toNat) = c.toNat % 16 := by
      rw [← hexDigit_mod]
      exact hexValue_hexDigit _ (Nat.mod_lt _ (by norm_num))
    simp only [String.toList_append, String.toList_ofList]
    show some (Char.ofNat (16 * hexValue (hexDigit (c.toNat / 16)) + hexValue (hexDigit c.toNat)),
      rest) = some (c, rest)
    rw [hhigh, hlow, Nat.div_add_mod, Char.ofNat_toNat]
  · rw [String.toList_singleton, List.singleton_append]
    -- no other character is escaped, and the reader takes each of the rest as it is
    unfold unescape
    split <;> simp_all

/-- The inside of a string can be told from the front of a text that ends it. -/
theorem inside_told (cs : List Char) : ∀ (cs' r r' : List Char),
    cs.flatMap (fun c => (escape c).toList) ++ '"' :: r
      = cs'.flatMap (fun c => (escape c).toList) ++ '"' :: r' → cs = cs' ∧ r = r' := by
  -- a quote ends the string, since no escaped character starts with one
  have hend : ∀ r, unescape ('"' :: r) = none := fun _ => rfl
  induction cs with
  | nil =>
    intro cs' r r' h
    cases cs' with
    | nil => exact ⟨rfl, (List.cons.inj h).2⟩
    | cons c' cs' =>
      have hhead := congrArg unescape h
      rw [List.flatMap_cons, List.append_assoc, unescape_escape] at hhead
      exact absurd hhead (by simp [hend])
  | cons c cs ih =>
    intro cs' r r' h
    have hhead := congrArg unescape h
    rw [List.flatMap_cons, List.append_assoc, unescape_escape] at hhead
    cases cs' with
    | nil => exact absurd hhead (by simp [hend])
    | cons c' cs' =>
      rw [List.flatMap_cons, List.append_assoc, unescape_escape] at hhead
      obtain ⟨rfl, htail⟩ := Prod.mk.inj (Option.some.inj hhead)
      obtain ⟨rfl, hr⟩ := ih cs' r r' htail
      exact ⟨rfl, hr⟩

/-- A quoted text is its characters, each escaped by itself, between two quotes. -/
theorem toList_quote (s : String) :
    (quote s).toList = '"' :: (s.toList.flatMap (fun c => (escape c).toList) ++ ['"']) := by
  simp [quote, String.toList_join, List.flatMap_map]

/-- **A string can be told from its text**, whatever follows. -/
theorem quote_told {s s' : String} {r r' : List Char}
    (h : (quote s).toList ++ r = (quote s').toList ++ r') : s = s' ∧ r = r' := by
  rw [toList_quote, toList_quote] at h
  simp only [List.cons_append, List.append_assoc, List.cons.injEq, true_and] at h
  obtain ⟨hs, hr⟩ := inside_told _ _ r r' h
  exact ⟨String.toList_inj.mp hs, hr⟩

/-! ## Numbers -/

/-- The characters of an integer. -/
def isNumeric (c : Char) : Bool := isDigit c || c == '-'

/-- A number is written with digits and a sign, none of which can follow a number. -/
theorem isNumeric_toString (n : Int) : ∀ c ∈ (toString n).toList, isNumeric c = true := by
  have hnat : ∀ m : Nat, ∀ c ∈ m.repr.toList, isNumeric c = true := by
    intro m c hc
    rw [Nat.repr_eq_ofList_toDigits, String.toList_ofList] at hc
    rw [isNumeric, isDigit_of_mem_toDigits hc, Bool.true_or]
  intro c hc
  rw [Int.toString_eq_repr, Int.repr_eq_if] at hc
  split_ifs at hc with hn
  · exact hnat _ c hc
  · rw [String.toList_append] at hc
    rcases List.mem_append.mp hc with hc | hc
    · obtain rfl : c = '-' := by simpa using hc
      decide
    · exact hnat _ c hc

theorem toString_ne_nil (n : Int) : (toString n).toList ≠ [] := by
  have hnat : ∀ m : Nat, m.repr.toList ≠ [] := by
    intro m
    rw [Nat.repr_eq_ofList_toDigits, String.toList_ofList]
    exact Nat.toDigits_ne_nil
  rw [Int.toString_eq_repr, Int.repr_eq_if]
  split_ifs
  · exact hnat _
  · simp

/-! ## Values -/

/-- What follows a value is a comma or closes what the value is in. -/
def Stops (r : List Char) : Prop := ∀ c ∈ r.head?, c = ',' ∨ c = ']' ∨ c = '\x7d'

theorem stops_cons {c : Char} (h : c = ',' ∨ c = ']' ∨ c = '\x7d') (r : List Char) :
    Stops (c :: r) := by
  intro c' hc'
  obtain rfl : c = c' := by simpa using hc'
  exact h

theorem Stops.not_numeric {r : List Char} (h : Stops r) : ∀ c ∈ r.head?, isNumeric c = false := by
  intro c hc
  rcases h c hc with rfl | rfl | rfl <;> decide

/-- The five kinds of values. -/
inductive Kind where
  | null | number | text | list | object
  deriving DecidableEq

def kind : Json → Kind
  | null => .null
  | number _ => .number
  | text _ => .text
  | list _ => .list
  | object _ => .object

/-- The kind of value that starts with a character. -/
def Kind.ofChar (c : Char) : Kind :=
  if c = 'n' then .null else if c = '"' then .text else if c = '[' then .list
  else if c = '\x7b' then .object else .number

/-- The first character of a value tells its kind, and closes nothing. -/
theorem compact_cons (v : Json) : ∃ c cs, v.compact.toList = c :: cs ∧ Kind.ofChar c = v.kind
    ∧ c ≠ ']' ∧ c ≠ '\x7d' := by
  cases v with
  | null => exact ⟨'n', "ull".toList, by decide, by decide, by decide, by decide⟩
  | number n =>
    obtain ⟨c, cs, hcs⟩ := List.exists_cons_of_ne_nil (toString_ne_nil n)
    have hc := isNumeric_toString n c (by rw [hcs]; exact List.mem_cons_self)
    -- a digit or a sign opens no other kind of value
    have hne : ∀ c', isNumeric c' = false → c ≠ c' := by
      rintro c' hc' rfl
      rw [hc] at hc'
      exact absurd hc' (by simp)
    refine ⟨c, cs, by rw [compact, hcs], ?_, hne _ (by decide), hne _ (by decide)⟩
    rw [Kind.ofChar, if_neg (hne _ (by decide)), if_neg (hne _ (by decide)),
      if_neg (hne _ (by decide)), if_neg (hne _ (by decide)), kind]
  | text s =>
    rw [compact, toList_quote]
    exact ⟨_, _, rfl, rfl, by decide, by decide⟩
  | list items =>
    refine ⟨'[', (compactItems items).toList ++ [']'], ?_, rfl, by decide, by decide⟩
    simp [compact]
  | object members =>
    refine ⟨'\x7b', (compactMembers members).toList ++ ['\x7d'], ?_, rfl, by decide, by decide⟩
    simp [compact]

theorem kind_eq {v v' : Json} {r r' : List Char}
    (h : v.compact.toList ++ r = v'.compact.toList ++ r') : v.kind = v'.kind := by
  obtain ⟨c, cs, hcs, hkind, _⟩ := v.compact_cons
  obtain ⟨c', cs', hcs', hkind', _⟩ := v'.compact_cons
  rw [hcs, hcs'] at h
  rw [← hkind, ← hkind', (List.cons.inj h).1]

/-- The value can be told from the front of a text. -/
def Told (v : Json) : Prop :=
  ∀ v' r r', Stops r → Stops r' → v.compact.toList ++ r = v'.compact.toList ++ r' → v = v' ∧ r = r'

/-! ### Lists and objects -/

section Elements

variable {α : Type} {text : List α → String} {close : Char}

/-- The elements can be told from the front of a text that closes them. -/
def ElementsTold (text : List α → String) (close : Char) (xs : List α) : Prop :=
  ∀ xs' r r', (text xs).toList ++ close :: r = (text xs').toList ++ close :: r' → xs = xs' ∧ r = r'

/-- What follows the first element: a comma and the others, or what closes them. -/
def afterFirst (text : List α → String) (close : Char) (r : List Char) : List α → List Char
  | [] => close :: r
  | x :: xs => ',' :: ((text (x :: xs)).toList ++ close :: r)

theorem stops_afterFirst (text : List α → String) (hclose : close = ']' ∨ close = '\x7d')
    (r : List Char) (xs : List α) :
    Stops (afterFirst text close r xs) := by
  cases xs with
  | nil => exact stops_cons (Or.inr hclose) _
  | cons x xs => exact stops_cons (Or.inl rfl) _

/-- A comma goes on and anything else closes, so the others can be told too. -/
theorem ElementsTold.afterFirst (hclose : close ≠ ',') {xs xs' : List α} {r r' : List Char}
    (hxs : ElementsTold text close xs)
    (h : afterFirst text close r xs = afterFirst text close r' xs') : xs = xs' ∧ r = r' := by
  cases xs with
  | nil =>
    cases xs' with
    | nil => exact ⟨rfl, (List.cons.inj h).2⟩
    | cons x' xs' => exact absurd (List.cons.inj h).1 hclose
  | cons x xs =>
    cases xs' with
    | nil => exact absurd (List.cons.inj h).1.symm hclose
    | cons x' xs' => exact hxs _ r r' (List.cons.inj h).2

end Elements

abbrev ItemsTold : List Json → Prop := ElementsTold compactItems ']'

abbrev MembersTold : List (String × Json) → Prop := ElementsTold compactMembers '\x7d'

/-- Items after the first one are written with a comma before each. -/
theorem compactItems_cons (v : Json) (rest : List Json) (r : List Char) :
    (compactItems (v :: rest)).toList ++ ']' :: r
      = v.compact.toList ++ afterFirst compactItems ']' r rest := by
  cases rest with
  | nil => simp [compactItems, afterFirst]
  | cons w rest => simp [compactItems, afterFirst]

theorem itemsTold_nil : ItemsTold [] := by
  intro items' r r' h
  cases items' with
  | nil => exact ⟨rfl, (List.cons.inj h).2⟩
  | cons v' rest' =>
    obtain ⟨c, cs, hcs, _, hc, _⟩ := v'.compact_cons
    rw [compactItems_cons, hcs] at h
    exact absurd (List.cons.inj h).1.symm hc

/-- A list is told item by item: the first item ends where a comma or the bracket is, and the rest
    is shorter. -/
theorem itemsTold_cons {v : Json} {rest : List Json} (hv : v.Told) (hrest : ItemsTold rest) :
    ItemsTold (v :: rest) := by
  intro items' r r' h
  cases items' with
  | nil =>
    obtain ⟨c, cs, hcs, _, hc, _⟩ := v.compact_cons
    rw [compactItems_cons, hcs] at h
    exact absurd (List.cons.inj h).1 hc
  | cons v' rest' =>
    rw [compactItems_cons, compactItems_cons] at h
    have hstops := stops_afterFirst compactItems (Or.inl rfl)
    obtain ⟨rfl, hafter⟩ := hv v' _ _ (hstops r rest) (hstops r' rest') h
    obtain ⟨rfl, hr⟩ := hrest.afterFirst (by decide) hafter
    exact ⟨rfl, hr⟩

theorem compactMembers_cons (k : String) (v : Json) (rest : List (String × Json)) (r : List Char) :
    (compactMembers ((k, v) :: rest)).toList ++ '\x7d' :: r
      = (quote k).toList ++ ':' :: (v.compact.toList ++ afterFirst compactMembers '\x7d' r rest) := by
  cases rest with
  | nil => simp [compactMembers, afterFirst]
  | cons w rest => simp [compactMembers, afterFirst]

theorem membersTold_nil : MembersTold [] := by
  intro members' r r' h
  cases members' with
  | nil => exact ⟨rfl, (List.cons.inj h).2⟩
  | cons m rest' =>
    rw [compactMembers_cons, toList_quote] at h
    exact absurd (List.cons.inj h).1 (by decide)

/-- An object is told member by member: the key up to its quote, then the value up to a comma or the
    brace. -/
theorem membersTold_cons {m : String × Json} {rest : List (String × Json)} (hm : m.2.Told)
    (hrest : MembersTold rest) : MembersTold (m :: rest) := by
  obtain ⟨k, v⟩ := m
  intro members' r r' h
  cases members' with
  | nil =>
    rw [compactMembers_cons, toList_quote] at h
    exact absurd (List.cons.inj h).1 (by decide)
  | cons m' rest' =>
    obtain ⟨k', v'⟩ := m'
    rw [compactMembers_cons, compactMembers_cons] at h
    obtain ⟨rfl, hvalue⟩ := quote_told h
    have hstops := stops_afterFirst compactMembers (Or.inr rfl)
    obtain ⟨rfl, hafter⟩ := hm v' _ _ (hstops r rest) (hstops r' rest') (List.cons.inj hvalue).2
    obtain ⟨rfl, hr⟩ := hrest.afterFirst (by decide) hafter
    exact ⟨rfl, hr⟩

/-! ### All values -/

theorem told_number (n : Int) : (number n).Told := by
  intro v' r r' hr hr' h
  have hkind := kind_eq h
  cases v' with
  | number n' =>
    simp only [compact] at h
    obtain ⟨htext, hrest⟩ := split_run (isNumeric_toString n) (isNumeric_toString n')
      hr.not_numeric hr'.not_numeric h
    rw [Int.repr_injective (String.toList_inj.mp htext)]
    exact ⟨rfl, hrest⟩
  | null | text | list | object => exact absurd hkind (by simp [kind])

/-- A list is told if its items are, since its closing bracket is no item. -/
theorem told_list {items : List Json} (hitems : ItemsTold items) : (list items).Told := by
  intro v' r r' _ _ h
  have hkind := kind_eq h
  cases v' with
  | list items' =>
    simp only [compact, String.toList_append] at h
    simp at h
    obtain ⟨rfl, hrest⟩ := hitems items' r r' h
    exact ⟨rfl, hrest⟩
  | null | number | text | object => exact absurd hkind (by simp [kind])

theorem told_object {members : List (String × Json)} (hmembers : MembersTold members) :
    (object members).Told := by
  intro v' r r' _ _ h
  have hkind := kind_eq h
  cases v' with
  | object members' =>
    simp only [compact, String.toList_append] at h
    simp at h
    obtain ⟨rfl, hrest⟩ := hmembers members' r r' h
    exact ⟨rfl, hrest⟩
  | null | number | text | list => exact absurd hkind (by simp [kind])

theorem told_null : null.Told := by
  intro v' r r' _ _ h
  have hkind := kind_eq h
  cases v' with
  | null => exact ⟨rfl, List.append_cancel_left h⟩
  | number | text | list | object => exact absurd hkind (by simp [kind])

theorem told_text (s : String) : (text s).Told := by
  intro v' r r' _ _ h
  have hkind := kind_eq h
  cases v' with
  | text s' =>
    simp only [compact] at h
    obtain ⟨rfl, hrest⟩ := quote_told h
    exact ⟨rfl, hrest⟩
  | null | number | list | object => exact absurd hkind (by simp [kind])

/-- **Every value can be told from the front of a text**, by induction on the value and on the lists
    inside it. -/
theorem told (v : Json) : v.Told :=
  @Json.rec Told ItemsTold MembersTold (fun m => m.2.Told) told_null told_number told_text
    (fun _ => told_list) (fun _ => told_object) itemsTold_nil (fun _ _ => itemsTold_cons)
    membersTold_nil (fun _ _ => membersTold_cons) (fun _ _ hv => hv) v

/-- **The compact text determines the value**: a text that is only a value is followed by
    nothing. -/
theorem compact_injective {v v' : Json} (h : v.compact = v'.compact) : v = v' := by
  have hnil : Stops [] := fun c hc => absurd hc (by simp)
  exact (v.told v' [] [] hnil hnil (by rw [h])).1

end Stencil.Json
