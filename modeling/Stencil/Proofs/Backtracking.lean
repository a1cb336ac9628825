import Mathlib
import Stencil.Source.Parser

/-!
# What a parser can come to

A parser that looks for the right alternative by trying them all can go astray in two ways. It can
fail after it has read some tokens, and another alternative is tried from where it started. Or it
gives up an option, a repetition or a list after having read part of it, and succeeds with less: it
stands before a token that it did read, and whose rest it could not. Neither matters in a grammar
where one token decides. In both cases the record is ahead of where the parser stands, and whatever
is tried next refuses the token at hand, without a change to the record, until the whole text is
given up.

This is said of parsers in three ways, each of which goes through all the ways to put parsers
together.

* `Refuses p first`: where the next token is none of `first`, the parser fails, having missed all of
  them there.
* `Still p ahead`: where the next token is one of `ahead` and the record is ahead of it, the parser
  neither reads a token nor changes the record.
* `Outcome`: the parser has read something; or it has failed for good; or it has succeeded with
  less, and then one of a few tokens follows, before which the rest of the grammar is still.
-/

namespace Stencil.Source

/-! ## The next token -/

/-- The next token is of one of the terminals. -/
def Starts (first : List Terminal) : List Lexeme → Prop
  | [] => False
  | x :: _ => x.token.terminal ∈ first

instance (first : List Terminal) (xs : List Lexeme) : Decidable (Starts first xs) :=
  match xs with
  | [] => inferInstanceAs (Decidable False)
  | x :: _ => inferInstanceAs (Decidable (x.token.terminal ∈ first))

/-- No terminal is in both lists. -/
def Apart (first second : List Terminal) : Prop := ∀ t ∈ first, t ∉ second

instance (first second : List Terminal) : Decidable (Apart first second) :=
  inferInstanceAs (Decidable (∀ t ∈ first, t ∉ second))

section Starts

variable {first second : List Terminal} {xs : List Lexeme}

theorem Starts.exists_cons (h : Starts first xs) :
    ∃ x ys, xs = x :: ys ∧ x.token.terminal ∈ first := by
  cases xs with
  | nil => exact h.elim
  | cons x ys => exact ⟨x, ys, rfl, h⟩

theorem starts_append : Starts (first ++ second) xs ↔ Starts first xs ∨ Starts second xs := by
  cases xs with
  | nil => simp [Starts]
  | cons x ys => simp [Starts]

theorem Starts.mono (h : Starts first xs) (hsub : first ⊆ second) : Starts second xs := by
  obtain ⟨x, ys, rfl, hx⟩ := h.exists_cons
  exact hsub hx

/-- A token that one list allows is not allowed by a list that has nothing in common with it. -/
theorem Starts.not_of_apart (h : Starts first xs) (hapart : Apart first second) :
    ¬ Starts second xs := by
  obtain ⟨x, ys, rfl, hx⟩ := h.exists_cons
  exact hapart _ hx

end Starts

/-! ## The record -/

namespace Record

variable {r : Record} {place : Nat}

/-- The record after several things were missing at one place. -/
def missAll (r : Record) (place : Nat) (es : List Expectation) : Record :=
  es.foldl (fun r e => r.miss place e) r

/-- Missing some alternatives and then others at the same place is missing all of them there. -/
theorem missAll_append (r : Record) (place : Nat) (es es' : List Expectation) :
    r.missAll place (es ++ es') = (r.missAll place es).missAll place es' :=
  List.foldl_append

/-- Behind the furthest place nothing is recorded: what was missed there explains nothing any
    more. -/
theorem miss_of_lt (h : place < r.place) (e : Expectation) : r.miss place e = r := by
  rw [miss, if_neg (Nat.not_lt.mpr h.le), if_pos (Or.inl h)]

theorem missAll_of_lt (h : place < r.place) (es : List Expectation) : r.missAll place es = r := by
  induction es with
  | nil => rfl
  | cons e es ih =>
    show (r.miss place e).missAll place es = r
    rw [miss_of_lt h, ih]

theorem le_place_miss (r : Record) (place : Nat) (e : Expectation) :
    r.place ≤ (r.miss place e).place := by
  unfold miss
  split_ifs with hlt hold
  · exact hlt.le
  · exact le_rfl
  · rw [not_or, Nat.not_lt] at hold
    exact hold.1

theorem le_place_missAll (r : Record) (place : Nat) (es : List Expectation) :
    r.place ≤ (r.missAll place es).place := by
  induction es generalizing r with
  | nil => exact le_rfl
  | cons e es ih => exact (r.le_place_miss place e).trans (ih (r.miss place e))

/-- At the place of the record, new things are added at its end. -/
theorem missAll_of_new {es es' : List Expectation} (h : (es ++ es').Nodup) :
    (Record.mk place es).missAll place es' = ⟨place, es ++ es'⟩ := by
  induction es' generalizing es with
  | nil => rw [List.append_nil]; rfl
  | cons e es' ih =>
    have hnew : e ∉ es := fun he => (List.disjoint_of_nodup_append h) he List.mem_cons_self
    have hmiss : (Record.mk place es).miss place e = ⟨place, es ++ [e]⟩ := by
      simp [miss, hnew]
    show ((Record.mk place es).miss place e).missAll place es' = _
    rw [hmiss, ih (by simpa using h)]
    simp

/-- Past the place of the record, it starts anew. -/
theorem missAll_of_past (h : r.place < place) {es : List Expectation} (hnodup : es.Nodup)
    (hne : es ≠ []) : r.missAll place es = ⟨place, es⟩ := by
  obtain ⟨e, es, rfl⟩ := List.exists_cons_of_ne_nil hne
  show (r.miss place e).missAll place es = _
  rw [miss, if_pos h]
  exact missAll_of_new hnodup

end Record

namespace Parser

variable {α β γ : Type}

/-! ## Tokens that a parser refuses -/

/-- Where the next token is of none of the terminals, the parser fails, having missed them all. -/
def Refuses (p : Parser α) (first : List Terminal) : Prop :=
  ∀ input r, ¬ Starts first input.rest →
    p input r = (none, r.missAll input.place (first.map .terminal))

section Refuses

variable {p q : Parser α} {first second : List Terminal}

/-- A single token refuses every token of another kind, and records that its own kind was missed. -/
theorem refuses_token {t : Terminal} {accept : Lexeme → Option α}
    (h : ∀ x, x.token.terminal ≠ t → accept x = none) : (token (.terminal t) accept).Refuses [t] := by
  intro input r hstarts
  unfold token
  cases hrest : input.rest with
  | nil => rfl
  | cons x xs =>
    rw [hrest] at hstarts
    have hnone : accept x = none := h x fun ht => hstarts (List.mem_singleton.mpr ht)
    simp only [hnone]
    rfl

theorem refuses_just (t : Terminal) : (just t).Refuses [t] :=
  refuses_token fun _ hx => if_neg hx

/-- A sequence refuses what its first part refuses; the second part is not reached. -/
theorem Refuses.bind (h : p.Refuses first) (f : α → Parser β) : (p.bind f).Refuses first := by
  intro input r hstarts
  rw [Parser.bind, h input r hstarts]

theorem Refuses.map (h : p.Refuses first) (f : α → β) : (p.map f).Refuses first := h.bind _

theorem Refuses.mapWith (h : p.Refuses first) (f : α → Span → β) :
    (p.mapWith f).Refuses first := by
  intro input r hstarts
  rw [Parser.mapWith, h input r hstarts]

/-- Alternatives refuse what both of them refuse, and both are missed, in the order in which they
    are tried. -/
theorem Refuses.orElse (hp : p.Refuses first) (hq : q.Refuses second) :
    (p.orElse q).Refuses (first ++ second) := by
  intro input r hstarts
  rw [starts_append, not_or] at hstarts
  rw [Parser.orElse, hp input r hstarts.1]
  show q input _ = _
  rw [hq input _ hstarts.2, List.map_append, Record.missAll_append]

/-- Where the first of the alternatives refuses the next token, the others are tried. -/
theorem Refuses.orElse_eq (hp : p.Refuses first) {input : Input} (r : Record)
    (h : ¬ Starts first input.rest) :
    p.orElse q input r = q input (r.missAll input.place (first.map .terminal)) := by
  rw [Parser.orElse, hp input r h]

/-- Where what is repeated refuses the next token, it is read no more. -/
theorem Refuses.repeatedUpTo_eq (hp : p.Refuses first) (n : Nat) {input : Input} (r : Record)
    (h : ¬ Starts first input.rest) :
    p.repeatedUpTo (n + 1) input r
      = (some ([], input), r.missAll input.place (first.map .terminal)) := by
  rw [Parser.repeatedUpTo, (hp.bind _).orElse_eq r h]
  rfl

end Refuses

/-! ## Parsers that stay where they are -/

/-- Where the next token is of one of the terminals, and the record is ahead of it, the parser reads
    nothing and leaves the record as it is. -/
def Still (p : Parser α) (ahead : List Terminal) : Prop :=
  ∀ input r, Starts ahead input.rest → input.place < r.place →
    p input r = (none, r) ∨ ∃ a, p input r = (some (a, input), r)

section Still

variable {p : Parser α} {ahead : List Terminal}

/-- Where the record is ahead, a refusal leaves no trace in it. -/
theorem Refuses.eq_none {first : List Terminal} (h : p.Refuses first)
    (hapart : Apart ahead first) {input : Input} {r : Record} (hstarts : Starts ahead input.rest)
    (hplace : input.place < r.place) : p input r = (none, r) := by
  rw [h input r (hstarts.not_of_apart hapart), Record.missAll_of_lt hplace]

theorem still_nil (p : Parser α) : p.Still [] := by
  intro input r hstarts
  obtain ⟨x, _, _, hx⟩ := hstarts.exists_cons
  exact absurd hx List.not_mem_nil

/-- A sequence is still if its parts are: if the first one succeeds, the second one starts at the
    same place. -/
theorem Still.bind (hp : p.Still ahead) {f : α → Parser β} (hf : ∀ a, (f a).Still ahead) :
    (p.bind f).Still ahead := by
  intro input r hstarts hplace
  rcases hp input r hstarts hplace with hnone | ⟨a, hsome⟩
  · left
    rw [Parser.bind, hnone]
  · rw [Parser.bind, hsome]
    exact hf a input r hstarts hplace

theorem still_succeed (a : α) (ahead : List Terminal) : (succeed a).Still ahead :=
  fun _ _ _ _ => Or.inr ⟨a, rfl⟩

theorem Still.map (hp : p.Still ahead) (f : α → β) : (p.map f).Still ahead :=
  hp.bind fun a => still_succeed (f a) ahead

/-- A repetition of what refuses the token is still. -/
theorem Refuses.still_repeatedUpTo {first : List Terminal} (h : p.Refuses first)
    (hapart : Apart ahead first) (n : Nat) : (p.repeatedUpTo n).Still ahead := by
  intro input r hstarts hplace
  right
  cases n with
  | zero => exact ⟨[], rfl⟩
  | succ n =>
    rw [h.repeatedUpTo_eq n r (hstarts.not_of_apart hapart), Record.missAll_of_lt hplace]
    exact ⟨[], rfl⟩

/-- A repetition whose rounds cannot start with any of the tokens ahead succeeds with nothing. -/
theorem Refuses.still_repeated {first : List Terminal} (h : p.Refuses first)
    (hapart : Apart ahead first) : p.repeated.Still ahead :=
  fun input r => h.still_repeatedUpTo hapart (input.rest.length + 1) input r

end Still

/-! ## Outcomes -/

/-- **What a parser comes to.** `Fatal` says of a record that it is the text's error. The parser gets
    to a place `least` tokens into the text at least, if only to fail there. -/
inductive Outcome (Fatal : Record → Prop) (least : Nat) (ahead : List Terminal)
    (Read : α → Input → Record → Prop) : Option (α × Input) × Record → Prop where
  /-- It has read something. -/
  | read {a input r} (h : Read a input r) (hplace : least ≤ input.place) :
      Outcome Fatal least ahead Read (some (a, input), r)
  /-- It has failed, and so does the whole text. -/
  | failed {r} (hfatal : Fatal r) (hplace : least ≤ r.place) :
      Outcome Fatal least ahead Read (none, r)
  /-- It has succeeded with less than it had read, and the whole text fails. -/
  | doomed {a input r} (hfatal : Fatal r) (hahead : input.place < r.place)
      (hstarts : Starts ahead input.rest) (hplace : least ≤ input.place) :
      Outcome Fatal least ahead Read (some (a, input), r)

namespace Outcome

variable {Fatal : Record → Prop} {least : Nat} {ahead ahead' : List Terminal}
  {Read : α → Input → Record → Prop} {p q : Parser α} {input : Input} {r : Record}

/-- An outcome can be weakened in each of its parts: less read, more tokens ahead, and less known of
    what was read. -/
theorem mono {out : Option (α × Input) × Record} (h : Outcome Fatal least ahead Read out)
    {least' : Nat} (hleast : least' ≤ least) (hahead : ahead ⊆ ahead')
    {Read' : α → Input → Record → Prop}
    (hread : ∀ a input r, least ≤ input.place → Read a input r → Read' a input r) :
    Outcome Fatal least' ahead' Read' out := by
  cases h with
  | read h hplace => exact .read (hread _ _ _ hplace h) (hleast.trans hplace)
  | failed hfatal hplace => exact .failed hfatal (hleast.trans hplace)
  | doomed hfatal hlt hstarts hplace =>
    exact .doomed hfatal hlt (hstarts.mono hahead) (hleast.trans hplace)

theorem of_le {out : Option (α × Input) × Record} (h : Outcome Fatal least ahead Read out)
    {least' : Nat} (hleast : least' ≤ least) : Outcome Fatal least' ahead Read out :=
  h.mono hleast (List.Subset.refl _) fun _ _ _ _ hread => hread

/-- One after the other, given what the second parser comes to where the first one has given up. -/
theorem bind_of_doomed {f : α → Parser β} {Read' : β → Input → Record → Prop}
    (h : Outcome Fatal least ahead Read (p input r))
    (hf : ∀ a input r, least ≤ input.place → Read a input r →
      Outcome Fatal least ahead' Read' (f a input r))
    (hdoomed : ∀ a input r, Fatal r → input.place < r.place → Starts ahead input.rest →
      least ≤ input.place → Outcome Fatal least ahead' Read' (f a input r)) :
    Outcome Fatal least ahead' Read' (p.bind f input r) := by
  unfold Parser.bind
  generalize p input r = out at h
  cases h with
  | read h hplace => exact hf _ _ _ hplace h
  | failed hfatal hplace => exact .failed hfatal hplace
  | doomed hfatal hlt hstarts hplace => exact hdoomed _ _ _ hfatal hlt hstarts hplace

/-- **One after the other.** The second parser has to be still before the tokens at which the first
    one may have given up. -/
theorem bind {f : α → Parser β} {Read' : β → Input → Record → Prop}
    (h : Outcome Fatal least ahead Read (p input r))
    (hf : ∀ a input r, least ≤ input.place → Read a input r →
      Outcome Fatal least ahead' Read' (f a input r))
    (hstill : ∀ a, (f a).Still ahead) (hahead : ahead ⊆ ahead') :
    Outcome Fatal least ahead' Read' (p.bind f input r) := by
  refine h.bind_of_doomed hf ?_
  intro a input r hfatal hlt hstarts hplace
  rcases hstill a input r hstarts hlt with hnone | ⟨b, hsome⟩
  · rw [hnone]
    exact .failed hfatal (hplace.trans hlt.le)
  · rw [hsome]
    exact .doomed hfatal hlt (hstarts.mono hahead) hplace

/-- **One and then a token.** The token is none of those at which the first parser may have given
    up, so that it is clear in the end what has happened. -/
theorem bind_of_refuses {f : α → Parser β} {Read' : β → Input → Record → Prop}
    {second : List Terminal} (h : Outcome Fatal least ahead Read (p input r))
    (hf : ∀ a input r, least ≤ input.place → Read a input r →
      Outcome Fatal least ahead' Read' (f a input r))
    (hrefuses : ∀ a, (f a).Refuses second) (hapart : Apart ahead second) :
    Outcome Fatal least ahead' Read' (p.bind f input r) := by
  refine h.bind_of_doomed hf ?_
  intro a input r hfatal hlt hstarts hplace
  rw [(hrefuses a).eq_none hapart hstarts hlt]
  exact .failed hfatal (hplace.trans hlt.le)

/-- A function of the result changes neither what is read nor what is recorded. -/
theorem map {f : α → β} {Read' : β → Input → Record → Prop}
    (h : Outcome Fatal least ahead Read (p input r))
    (hf : ∀ a input r, least ≤ input.place → Read a input r → Read' (f a) input r) :
    Outcome Fatal least ahead Read' (p.map f input r) :=
  h.bind (fun a input r hplace hread => .read (hf a input r hplace hread) hplace)
    (fun a => still_succeed (f a) ahead) (List.Subset.refl _)

/-- The span of what was read goes from where the parser started to where it stopped. -/
theorem mapWith {f : α → Span → β} {Read' : β → Input → Record → Prop}
    (h : Outcome Fatal least ahead Read (p input r))
    (hf : ∀ a input' r', least ≤ input'.place → Read a input' r' →
      Read' (f a ⟨input.start, input'.stop⟩) input' r') :
    Outcome Fatal least ahead Read' (p.mapWith f input r) := by
  unfold Parser.mapWith
  generalize p input r = out at h
  cases h with
  | read h hplace => exact .read (hf _ _ _ hplace h) hplace
  | failed hfatal hplace => exact .failed hfatal hplace
  | doomed hfatal hlt hstarts hplace => exact .doomed hfatal hlt hstarts hplace

/-- **One or another.** The next token says which; if the first one fails after it, the other one
    refuses it. -/
theorem orElse {first second : List Terminal} (hp : p.Refuses first) (hq : q.Refuses second)
    (hapart : Apart first second) (hstarts : Starts (first ++ second) input.rest)
    (hleft : Starts first input.rest →
      Outcome Fatal (input.place + 1) ahead Read (p input r))
    (hright : ¬ Starts first input.rest → Starts second input.rest →
      Outcome Fatal (input.place + 1) ahead Read
        (q input (r.missAll input.place (first.map .terminal)))) :
    Outcome Fatal (input.place + 1) ahead Read (p.orElse q input r) := by
  by_cases hfirst : Starts first input.rest
  · have h := hleft hfirst
    unfold Parser.orElse
    generalize p input r = out at h
    cases h with
    | read h hplace => exact .read h hplace
    | @failed r hfatal hplace =>
      show Outcome _ _ _ _ (q input r)
      rw [hq.eq_none hapart hfirst hplace]
      exact .failed hfatal hplace
    | doomed hfatal hlt hstarts hplace => exact .doomed hfatal hlt hstarts hplace
  · rw [hp.orElse_eq r hfirst]
    exact hright hfirst ((starts_append.mp hstarts).resolve_left hfirst)

/-- **What may be left out**: if it is not there, what it can start with was missing; if it is given
    up, it is left out, and the token that it started with follows. -/
theorem orElse_succeed {first : List Terminal} {a : α} (hp : p.Refuses first)
    (hleast : least ≤ input.place)
    (hskip : ¬ Starts first input.rest → Read a input (r.missAll input.place (first.map .terminal)))
    (hread : Starts first input.rest → Outcome Fatal (input.place + 1) ahead Read (p input r)) :
    Outcome Fatal least (first ++ ahead) Read (p.orElse (succeed a) input r) := by
  by_cases hstarts : Starts first input.rest
  · have h := hread hstarts
    unfold Parser.orElse
    generalize p input r = out at h
    cases h with
    | read h hplace => exact .read h (hleast.trans (Nat.le_of_succ_le hplace))
    | failed hfatal hplace =>
      exact .doomed hfatal hplace (hstarts.mono (List.subset_append_left _ _)) hleast
    | doomed hfatal hlt hnext hplace =>
      exact .doomed hfatal hlt (hnext.mono (List.subset_append_right _ _))
        (hleast.trans (Nat.le_of_succ_le hplace))
  · rw [hp.orElse_eq r hstarts]
    exact .read (hskip hstarts) hleast

/-- **A repetition.** `Loop` holds before every round, with what has been read so far, and `Read`
    after the last one. A round that is given up ends the repetition. -/
theorem repeatedUpTo {first : List Terminal} {Loop Read : List α → Input → Record → Prop}
    (hp : p.Refuses first) (hapart : Apart ahead first)
    (hend : ∀ as input r, Loop as input r → ¬ Starts first input.rest →
      Read as input (r.missAll input.place (first.map .terminal)))
    (hround : ∀ as input r, Loop as input r → Starts first input.rest →
      Outcome Fatal (input.place + 1) ahead
        (fun a input' r' => Loop (as ++ [a]) input' r' ∧ input'.rest.length < input.rest.length)
        (p input r)) :
    ∀ n least as input r, input.rest.length < n → least ≤ input.place → Loop as input r →
      Outcome Fatal least (first ++ ahead) (fun bs => Read (as ++ bs)) (p.repeatedUpTo n input r) := by
  intro n
  induction n with
  | zero => intro least as input r hlength; exact absurd hlength (Nat.not_lt_zero _)
  | succ n ih =>
    intro least as input r hlength hleast hloop
    -- a round given up leaves one of `first` ahead, and so does giving up the repetition before it
    suffices hwhole : Outcome Fatal least (first ++ (first ++ ahead)) (fun bs => Read (as ++ bs))
        (p.repeatedUpTo (n + 1) input r) by
      refine hwhole.mono le_rfl ?_ fun _ _ _ _ h => h
      exact List.append_subset.mpr ⟨List.subset_append_left _ _, List.Subset.refl _⟩
    refine orElse_succeed (hp.bind _) hleast ?_ ?_
    · intro hstarts
      rw [List.append_nil]
      exact hend as input r hloop hstarts
    · intro hstarts
      -- every round reads a token, so that the bound is never what ends the repetition
      refine (hround as input r hloop hstarts).bind ?_
        (fun a => (hp.still_repeatedUpTo hapart n).map _) (List.subset_append_right _ _)
      rintro a input' r' hplace ⟨hloop', hshorter⟩
      refine Outcome.map (ih _ (as ++ [a]) input' r' (by omega) hplace hloop') ?_
      intro bs _ _ _ hread
      rwa [List.append_assoc] at hread

/-- **A repetition**, with as many rounds as there are tokens left, which is as many as can ever
    read something. -/
theorem repeated {first : List Terminal} (Loop : List α → Input → Record → Prop)
    {Read : List α → Input → Record → Prop} (hp : p.Refuses first) (hapart : Apart ahead first)
    (hend : ∀ as input r, Loop as input r → ¬ Starts first input.rest →
      Read as input (r.missAll input.place (first.map .terminal)))
    (hround : ∀ as input r, Loop as input r → Starts first input.rest →
      Outcome Fatal (input.place + 1) ahead
        (fun a input' r' => Loop (as ++ [a]) input' r' ∧ input'.rest.length < input.rest.length)
        (p input r))
    (hleast : least ≤ input.place) (hloop : Loop [] input r) :
    Outcome Fatal least (first ++ ahead) Read (p.repeated input r) :=
  repeatedUpTo hp hapart hend hround _ least [] input r (Nat.lt_succ_self _) hleast hloop

end Outcome

end Parser

end Stencil.Source
