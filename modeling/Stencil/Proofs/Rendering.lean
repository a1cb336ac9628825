import Mathlib
import Stencil.Format.Registry
import Stencil.Proofs.Edits
import Stencil.Proofs.Interpretation

/-!
# When rendering fails

Rendering has two ways to fail: the id of the format is not known, or the format lowers the
equations and one of them divides by zero. Which one it is, and that there is no third one, is said
once by `Draft.render_cases`.

An equation divides by zero if one of its divisors has no points and is worth zero in the arithmetic
of machine doubles.

Lowering looks for such a divisor before it does anything else, by evaluating every expression
without points (`constValue?_eq`, `isZeroDivision_iff`). It does so for the equations in their order
and stops at the first one that it refuses (`lowerFrom_cases`). A divisor that has a point in it is
never refused, even if it is always zero: its value depends on what is in the grids.

The formats are known by a table that is kept sorted by id, and looking up depends on what is in the
table alone (`mem_builtin`, `mem_knownIds`). Each of them either lowers or does not
(`render_cases_of_lowers`).
-/

namespace Stencil

/-! ## Divisions by zero -/

namespace Expr

/-- A tree without points is folded to its value, and no other tree is folded. -/
theorem constValue?_eq (read : Point → Double) (e : Expr) :
    e.constValue? = if e.points = [] then some (e.value .double read) else none := by
  induction e with
  | const v => rfl
  | point p => rfl
  | binary op lhs rhs ihl ihr =>
    simp only [constValue?, points, value, ihl, ihr, List.append_eq_nil_iff]
    by_cases hl : lhs.points = []
    · by_cases hr : rhs.points = []
      · simp only [hl, hr, and_self, if_true]
        rfl
      · simp only [hl, hr, and_false, if_true, if_false]
    · simp only [hl, false_and, if_false]

/-- Some division in the tree has a divisor without points that is worth zero. -/
def DividesByZero (e : Expr) : Prop :=
  ∃ lhs rhs, .binary .div lhs rhs ∈ e.subtrees
    ∧ rhs.points = [] ∧ ∀ read, (rhs.value .double read).isZero = true

/-- An expression is a division by zero if its divisor has no points and is worth zero whatever is
    read. -/
theorem isZeroDivision_iff {e : Expr} :
    e.isZeroDivision = true ↔ ∃ lhs rhs, e = .binary .div lhs rhs
      ∧ rhs.points = [] ∧ ∀ read, (rhs.value .double read).isZero = true := by
  constructor
  · intro h
    cases e with
    | const v => cases h
    | point p => cases h
    | binary op lhs rhs =>
      cases op with
      | add => cases h
      | sub => cases h
      | mul => cases h
      | div =>
        have hany : rhs.constValue?.any Double.isZero = true := h
        have hpoints : rhs.points = [] := by
          by_contra hne
          rw [constValue?_eq (fun _ => .zero), if_neg hne] at hany
          cases hany
        refine ⟨lhs, rhs, rfl, hpoints, ?_⟩
        intro read
        rw [constValue?_eq read, if_pos hpoints] at hany
        exact hany
  · rintro ⟨lhs, rhs, rfl, hpoints, hzero⟩
    show rhs.constValue?.any Double.isZero = true
    rw [constValue?_eq (fun _ => .zero), if_pos hpoints]
    exact hzero _

/-- A division by zero is found exactly if there is one, anywhere in the expression. -/
theorem zeroDivision?_isSome_iff {e : Expr} : e.zeroDivision?.isSome = true ↔ e.DividesByZero := by
  rw [zeroDivision?, Option.isSome_map, List.find?_isSome]
  constructor
  · rintro ⟨e', hmem, hzero⟩
    obtain ⟨lhs, rhs, rfl, h⟩ := isZeroDivision_iff.mp hzero
    exact ⟨lhs, rhs, hmem, h⟩
  · rintro ⟨lhs, rhs, hmem, h⟩
    exact ⟨_, hmem, isZeroDivision_iff.mpr ⟨lhs, rhs, rfl, h⟩⟩

end Expr

/-! ## Lowering -/

/-- Lowering refuses an equation exactly if it divides by zero. -/
theorem Equation.lower_cases (e : Equation) (index : Nat) (share : Bool) :
    (e.rhs.DividesByZero ∧ ∃ text, e.lower index share = .error (.divisionByZero text))
      ∨ (¬ e.rhs.DividesByZero ∧ ∃ k, e.lower index share = .ok k) := by
  rw [← Expr.zeroDivision?_isSome_iff, Equation.lower]
  cases hzero : e.rhs.zeroDivision? with
  | none => exact Or.inr ⟨by simp, _, rfl⟩
  | some err =>
    obtain ⟨e', _, rfl⟩ := Option.map_eq_some_iff.mp hzero
    exact Or.inl ⟨rfl, _, rfl⟩

/-- Equations are lowered one after the other: all of them, or none if one divides by zero. -/
theorem lowerFrom_cases (share : Bool) (es : List Equation) : ∀ index,
    ((∃ e ∈ es, e.rhs.DividesByZero)
        ∧ ∃ text, lowerFrom share index es = .error (.divisionByZero text))
      ∨ ((∀ e ∈ es, ¬ e.rhs.DividesByZero) ∧ ∃ ks, lowerFrom share index es = .ok ks) := by
  induction es with
  | nil =>
    intro index
    exact Or.inr ⟨List.forall_mem_nil _, [], rfl⟩
  | cons e es ih =>
    intro index
    rw [lowerFrom]
    rcases e.lower_cases index share with ⟨hzero, text, hlower⟩ | ⟨hnot, k, hlower⟩
    · rw [hlower]
      exact Or.inl ⟨⟨e, List.mem_cons_self, hzero⟩, text, rfl⟩
    · rw [hlower]
      rcases ih (index + 1) with ⟨⟨e', he', hzero⟩, text, hrest⟩ | ⟨hnone, ks, hrest⟩
      · rw [hrest]
        exact Or.inl ⟨⟨e', List.mem_cons_of_mem _ he', hzero⟩, text, rfl⟩
      · rw [hrest]
        exact Or.inr ⟨List.forall_mem_cons.mpr ⟨hnot, hnone⟩, k :: ks, rfl⟩

/-- Some equation of the solution divides by zero. -/
def Solution.DividesByZero (s : Solution) : Prop := ∃ e ∈ s.equations, e.rhs.DividesByZero

/-- **A solution is lowered exactly if it does not divide by zero.** -/
theorem Solution.lower_cases (s : Solution) (share : Bool) :
    (s.DividesByZero ∧ ∃ text, s.lower share = .error (.divisionByZero text))
      ∨ (¬ s.DividesByZero ∧ ∃ ks, s.lower share = .ok ks) := by
  rcases lowerFrom_cases share s.equations 0 with h | ⟨hnone, hks⟩
  · exact Or.inl h
  · refine Or.inr ⟨?_, hks⟩
    rintro ⟨e, he, hzero⟩
    exact hnone e he hzero

/-! ## Formats -/

namespace Registry

theorem mem_insert {f g : Format} {fs : List Format} : g ∈ insert f fs ↔ g = f ∨ g ∈ fs := by
  induction fs with
  | nil => rw [insert, List.mem_singleton, List.mem_nil_iff, or_false]
  | cons h fs ih =>
    unfold insert
    split_ifs
    · exact List.mem_cons
    · rw [List.mem_cons, ih, List.mem_cons]
      tauto

theorem mem_sorted {g : Format} {fs : List Format} : g ∈ fs.foldr insert [] ↔ g ∈ fs := by
  induction fs with
  | nil => rfl
  | cons f fs ih => rw [List.foldr_cons, mem_insert, ih, List.mem_cons]

/-- **The formats that come with the compiler**: the graph, the canonical text, the listing and one
    for each target. -/
theorem mem_builtin {f : Format} {share : Bool} :
    f ∈ (builtin share).formats ↔ f = .dot ∨ f = .pseudo share ∨ f = .json
      ∨ ∃ t ∈ Target.all, .code share t = f := by
  rw [builtin, mem_sorted]
  simp only [List.mem_append, List.mem_cons, List.mem_nil_iff, or_false, List.mem_map, or_assoc]

end Registry

namespace Format

/-- The ids of the formats that lower the equations: pseudo-code and the code of the targets. -/
def loweringIds : List String := "pseudo" :: Target.all.map Target.id

/-- The ids that are known. -/
def knownIds : List String := "dot" :: "json" :: loweringIds

theorem mem_knownIds_of_lowers {id : String} (h : id ∈ loweringIds) : id ∈ knownIds :=
  List.mem_cons_of_mem _ (List.mem_cons_of_mem _ h)

/-- An id is known exactly if one of the built-in formats has it, whether subexpressions are shared
    or not. -/
theorem mem_knownIds {id : String} (share : Bool) :
    id ∈ knownIds ↔ ∃ f ∈ (Registry.builtin share).formats, f.id = id := by
  constructor
  · intro h
    rcases List.mem_cons.mp h with rfl | h
    · exact ⟨.dot, Registry.mem_builtin.mpr (Or.inl rfl), rfl⟩
    rcases List.mem_cons.mp h with rfl | h
    · exact ⟨.json, Registry.mem_builtin.mpr (Or.inr (Or.inr (Or.inl rfl))), rfl⟩
    rcases List.mem_cons.mp h with rfl | h
    · exact ⟨.pseudo share, Registry.mem_builtin.mpr (Or.inr (Or.inl rfl)), rfl⟩
    obtain ⟨t, ht, rfl⟩ := List.mem_map.mp h
    exact ⟨.code share t, Registry.mem_builtin.mpr (Or.inr (Or.inr (Or.inr ⟨t, ht, rfl⟩))), rfl⟩
  · rintro ⟨f, hf, rfl⟩
    rcases Registry.mem_builtin.mp hf with rfl | rfl | rfl | ⟨t, ht, rfl⟩
    · exact List.mem_cons_self
    · exact mem_knownIds_of_lowers List.mem_cons_self
    · exact List.mem_cons_of_mem _ List.mem_cons_self
    · exact mem_knownIds_of_lowers (List.mem_cons_of_mem _ (List.mem_map_of_mem ht))

/-- A format that writes what lowering gives fails as lowering does. -/
theorem render_cases_of_lowers {f : Format} {s : Solution} {share : Bool} (hid : f.id ∈ loweringIds)
    {write : List Kernel → String} (hrender : f.render s = (s.lower share).map write) :
    (f.id ∈ loweringIds ∧ s.DividesByZero ∧ ∃ text, f.render s = .error (.divisionByZero text))
      ∨ ((f.id ∈ loweringIds → ¬ s.DividesByZero) ∧ ∃ text, f.render s = .ok text) := by
  rw [hrender]
  rcases s.lower_cases share with ⟨hzero, text, hlower⟩ | ⟨hnot, ks, hlower⟩
  · rw [hlower]
    exact Or.inl ⟨hid, hzero, text, rfl⟩
  · rw [hlower]
    exact Or.inr ⟨fun _ => hnot, write ks, rfl⟩

/-- A format that comes with the compiler fails exactly if it lowers the equations and one of them
    divides by zero. -/
theorem render_cases {f : Format} {share : Bool} (hf : f ∈ (Registry.builtin share).formats)
    (s : Solution) :
    (f.id ∈ loweringIds ∧ s.DividesByZero ∧ ∃ text, f.render s = .error (.divisionByZero text))
      ∨ ((f.id ∈ loweringIds → ¬ s.DividesByZero) ∧ ∃ text, f.render s = .ok text) := by
  rcases Registry.mem_builtin.mp hf with rfl | rfl | rfl | ⟨t, ht, rfl⟩
  · exact Or.inr ⟨fun h => absurd h (by decide), _, rfl⟩
  · exact render_cases_of_lowers List.mem_cons_self rfl
  · exact Or.inr ⟨fun h => absurd h (by decide), _, rfl⟩
  · exact render_cases_of_lowers (List.mem_cons_of_mem _ (List.mem_map_of_mem ht)) rfl

end Format

/-- **The ways a rendering ends**: the id is not known; it is one of a format that lowers the
    equations, and one of them divides by zero; or there is a text. -/
theorem Draft.render_cases (d : Draft) (share : Bool) (id : String) :
    (id ∉ Format.knownIds
        ∧ ∃ ids, (d.render (.builtin share) id).1 = .error (.unsupportedFormat id ids))
      ∨ (id ∈ Format.loweringIds ∧ d.solution.DividesByZero
        ∧ ∃ text, (d.render (.builtin share) id).1 = .error (.divisionByZero text))
      ∨ (id ∈ Format.knownIds ∧ (id ∈ Format.loweringIds → ¬ d.solution.DividesByZero)
        ∧ ∃ text, (d.render (.builtin share) id).1 = .ok text) := by
  rw [Draft.render_eq, Registry.lookup, Format.mem_knownIds share]
  cases hfind : (Registry.builtin share).formats.find? (·.id == id) with
  | none =>
    refine Or.inl ⟨?_, _, rfl⟩
    rintro ⟨f, hf, rfl⟩
    exact absurd (List.find?_eq_none.mp hfind f hf) (by simp)
  | some f =>
    have hmem := List.mem_of_find?_eq_some hfind
    obtain rfl : f.id = id := by simpa using List.find?_some hfind
    rcases Format.render_cases hmem d.solution with ⟨hid, hzero, text, hrender⟩ | ⟨hnot, text, hrender⟩
    · exact Or.inr (Or.inl ⟨hid, hzero, text, hrender⟩)
    · exact Or.inr (Or.inr ⟨⟨f, hmem, rfl⟩, hnot, text, hrender⟩)

end Stencil
