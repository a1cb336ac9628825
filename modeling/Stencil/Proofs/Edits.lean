import Mathlib
import Stencil.Format.Registry
import Stencil.Proofs.WellFormed

/-!
# What calls on a draft do

A call on a draft is run step by step, and the draft that it leaves is whatever its steps have made
of it. This module takes runs apart (`Draft.run_bind_eq_ok_iff`, `Draft.run_bind_eq_error_iff`),
says what each kind of step does (`run_check`, `run_change`, `run_record`), and puts together from
that what each call does.

For each call there are two statements. The first one says when it is accepted and what it leaves
then (`declareGrid_eq_ok_iff`, `addEquation_eq_ok_iff`, `equate_eq_ok_iff`,
`setElementBytes_eq_ok_iff`). The second one says why it is refused, and that a refused call leaves
the draft it was made on (`declareGrid_refused`, `addEquation_refused`, `equate_refused`,
`setElementBytes_refused`). Nothing but the order of the steps makes the second one true: all checks
of a call come before its first change, and no change is ever refused.

All later modules use these statements and open no call again. When a call gets one more check, its
two statements change here, and whatever is concluded from them about sessions, scripts and programs
stays as it is.
-/

namespace Stencil

/-! ## Runs -/

/-- One computation after another starts from the state that the first one leaves, and does not start
    at all if the first one is refused. -/
theorem run_bind_state {ε σ α β : Type} (s : σ) (x : ExceptT ε (StateM σ) α)
    (f : α → ExceptT ε (StateM σ) β) :
    (ExceptT.run (x >>= f)).run s = match (ExceptT.run x).run s with
      | (.ok a, s') => (ExceptT.run (f a)).run s'
      | (.error e, s') => (.error e, s') := by
  show (match (ExceptT.run x).run s with | (r, s') => ExceptT.bindCont f r s') = _
  rcases (ExceptT.run x).run s with ⟨_ | _, _⟩ <;> rfl

namespace Draft

variable {α β : Type} {d d' : Draft} {e : Error}

@[simp] theorem run_pure (d : Draft) (a : α) : d.run (pure a) = (.ok a, d) := rfl

/-- A step that is refused leaves the draft as it stands, with all that the steps before it have
    changed. -/
@[simp] theorem run_throw (d : Draft) (e : Error) : d.run (throw e : Edit α) = (.error e, d) := rfl

@[simp] theorem run_ofExcept (d : Draft) (r : Except Error α) :
    d.run (ofExcept r) = (r, d) := by
  cases r <;> rfl

@[simp] theorem run_solution (d : Draft) : d.run Edit.solution = (.ok d.solution, d) := rfl

/-- A change goes through whatever the solution is, and leaves the record alone. -/
@[simp] theorem run_change (d : Draft) (f : Solution → Solution) :
    d.run (Edit.change f) = (.ok (), { d with solution := f d.solution }) := rfl

/-- A line is recorded, whether or not there is room for it. -/
@[simp] theorem run_record (d : Draft) (line : String) :
    d.run (Edit.record line) = (.ok (), d.record line) := rfl

/-- **One call after another** starts from what the first one leaves, and is not made at all if the
    first one is refused. -/
theorem run_bind (d : Draft) (call : Edit α) (next : α → Edit β) :
    d.run (call >>= next) = match d.run call with
      | (.ok a, d') => d'.run (next a)
      | (.error e, d') => (.error e, d') := by
  unfold run
  rw [run_bind_state]
  rcases (ExceptT.run call).run d with ⟨_ | _, _⟩ <;> rfl

/-- Two calls are accepted if the second one is, after the first one. -/
theorem run_bind_eq_ok_iff {call : Edit α} {next : α → Edit β} {b : β} :
    d.run (call >>= next) = (.ok b, d')
      ↔ ∃ a mid, d.run call = (.ok a, mid) ∧ mid.run (next a) = (.ok b, d') := by
  rw [run_bind]
  cases hrun : d.run call with
  | mk r mid =>
    cases r with
    | ok a => simp
    | error e => simp

/-- Two calls are refused if the first one is, or the second one after it. -/
theorem run_bind_eq_error_iff {call : Edit α} {next : α → Edit β} :
    d.run (call >>= next) = (.error e, d')
      ↔ d.run call = (.error e, d')
        ∨ ∃ a mid, d.run call = (.ok a, mid) ∧ mid.run (next a) = (.error e, d') := by
  rw [run_bind]
  cases hrun : d.run call with
  | mk r mid =>
    cases r with
    | ok a => simp
    | error e => simp

/-! ## Checks and changes -/

/-- What a check answers, given the fault that it finds. -/
def verdict : Option Error → Except Error Unit
  | some e => .error e
  | none => .ok ()

theorem verdict_eq_ok_iff {fault : Option Error} {u : Unit} :
    verdict fault = .ok u ↔ fault = none := by
  cases fault <;> simp [verdict]

/-- A check is refused with the fault that was found, and with no other error. -/
theorem verdict_eq_error_iff {fault : Option Error} :
    verdict fault = .error e ↔ fault = some e := by
  cases fault <;> simp [verdict]

/-- **A check leaves the draft as it is**, whatever it answers. -/
theorem run_check (d : Draft) (fault? : Solution → Option Error) :
    d.run (Edit.check fault?) = (verdict (fault? d.solution), d) := by
  unfold Edit.check
  rw [run_bind, run_solution]
  dsimp only
  cases fault? d.solution with
  | some e => rfl
  | none => rfl

/-- Checks in a row answer with the first fault, and leave the draft as it is. -/
theorem run_checks (d : Draft) (fault? : α → Solution → Option Error) (xs : List α) :
    d.run (xs.forM fun x => Edit.check (fault? x))
      = (verdict (xs.findSome? fun x => fault? x d.solution), d) := by
  induction xs with
  | nil => rfl
  | cons x xs ih =>
    show d.run (Edit.check (fault? x) >>= fun _ => xs.forM fun x => Edit.check (fault? x)) = _
    rw [run_bind, run_check, List.findSome?_cons]
    cases fault? x d.solution with
    | some e => rfl
    | none => exact ih

/-- **Changes in a row are all made**, since none of them can be refused. -/
theorem run_changes (f : α → Solution → Solution) (xs : List α) : ∀ d : Draft,
    d.run (xs.forM fun x => Edit.change (f x))
      = (.ok (), { d with solution := xs.foldl (fun s x => f x s) d.solution }) := by
  induction xs with
  | nil =>
    intro d
    rfl
  | cons x xs ih =>
    intro d
    show d.run (Edit.change (f x) >>= fun _ => xs.forM fun x => Edit.change (f x)) = _
    rw [run_bind, run_change]
    exact ih _

end Draft

/-! ## Grids and equations that can be made -/

/-- A grid is made from just the name and the dimensions it is given; there is no other grid with
    them. -/
theorem Grid.make_eq_ok_iff {name : String} {dims : List Dim} {g : Grid} :
    Grid.make name dims = .ok g ↔ g.name = name ∧ g.dims = dims := by
  unfold Grid.make
  constructor
  · intro h
    split at h
    · exact absurd h (by simp)
    · injection h with h
      subst h
      exact ⟨rfl, rfl⟩
  · rintro ⟨rfl, rfl⟩
    split
    · rename_i e he
      rw [g.sound] at he
      exact absurd he (by simp)
    · rfl

/-- What makes no grid has a fault, and the fault is the error. -/
theorem Grid.make_eq_error_iff {name : String} {dims : List Dim} {e : Error} :
    Grid.make name dims = .error e ↔ Grid.fault? name dims = some e := by
  unfold Grid.make
  split
  · rename_i e' he
    simp [he]
  · rename_i he
    simp [he]

/-- An equation is made from just the sides it is given; the proof that they fit together is part of
    it. -/
theorem Equation.make_eq_ok_iff {lhs : Point} {rhs : Expr} {e : Equation} :
    Equation.make lhs rhs = .ok e ↔ e.lhs = lhs ∧ e.rhs = rhs := by
  unfold Equation.make
  constructor
  · intro h
    split at h
    · exact absurd h (by simp)
    · injection h with h
      subst h
      exact ⟨rfl, rfl⟩
  · rintro ⟨rfl, rfl⟩
    split
    · rename_i err he
      rw [e.sound] at he
      exact absurd he (by simp)
    · rfl

/-- What makes no equation has a fault, and the fault is the error. -/
theorem Equation.make_eq_error_iff {lhs : Point} {rhs : Expr} {e : Error} :
    Equation.make lhs rhs = .error e ↔ Equation.fault? lhs rhs = some e := by
  unfold Equation.make
  split
  · rename_i e' he
    simp [he]
  · rename_i he
    simp [he]

/-! ## Calls -/

namespace Solution

/-- The solution with one more grid and its new dimensions. -/
def withGrid (s : Solution) (g : Grid) : Solution :=
  { s with dims := g.dims.foldl insertDim s.dims, grids := s.grids ++ [g] }

/-- Entering dimension by dimension fills one table. -/
theorem foldl_enterDim (ds : List Dim) : ∀ s : Solution,
    ds.foldl (fun s d => s.enterDim d) s = { s with dims := ds.foldl insertDim s.dims } := by
  induction ds with
  | nil =>
    intro s
    rfl
  | cons d ds ih =>
    intro s
    rw [List.foldl_cons, ih]
    rfl

theorem nameFault?_eq_none_iff {s : Solution} {name : String} :
    s.nameFault? name = none ↔ s.grid? name = none := by
  unfold nameFault?
  cases s.grid? name <;> simp

/-- The name of a grid is at fault if some grid of the solution has it already, and the error names
    the grid and the solution. -/
theorem nameFault?_eq_some_iff {s : Solution} {name : String} {e : Error} :
    s.nameFault? name = some e ↔ s.grid? name ≠ none ∧ e = .duplicateName name s.name := by
  unfold nameFault?
  cases s.grid? name <;> simp [eq_comm]

theorem ownerFault?_eq_none_iff {s : Solution} {p : Point} :
    s.ownerFault? p = none ↔ s.owns p = true := by
  unfold ownerFault?
  cases s.owns p <;> simp

/-- A point is at fault if the solution does not own its grid: one of the same name from elsewhere
    does not do. -/
theorem ownerFault?_eq_some_iff {s : Solution} {p : Point} {e : Error} :
    s.ownerFault? p = some e ↔ s.owns p = false ∧ e = .unknownGrid p.grid.name s.name := by
  unfold ownerFault?
  cases s.owns p <;> simp [eq_comm]

end Solution

namespace Draft

variable {d d' : Draft} {e : Error}

/-- The draft with another solution, and one more line in its record. -/
def advance (d : Draft) (s : Solution) (line : String) : Draft :=
  Draft.record { d with solution := s } line

/-- **A grid is declared** exactly if its name is new, it can be made, and its dimensions go with
    those in use. Then it and its new dimensions are entered, and its line is recorded. -/
theorem declareGrid_eq_ok_iff {name : String} {dims : List Dim} {g : Grid} :
    d.declareGrid name dims = (.ok g, d') ↔
      d.solution.grid? name = none ∧ Grid.make name dims = .ok g
        ∧ (∀ dim ∈ g.dims, d.solution.conflict? g.name dim = none)
        ∧ d' = d.advance (d.solution.withGrid g) (gridLine g) := by
  simp only [declareGrid, Edit.declareGrid, run_bind_eq_ok_iff, run_check, run_checks, run_changes,
    run_change, run_record, run_ofExcept, run_pure, Prod.mk.injEq, verdict_eq_ok_iff,
    Solution.nameFault?_eq_none_iff, List.findSome?_eq_none_iff, Solution.foldl_enterDim]
  constructor
  · rintro ⟨_, _, ⟨hname, rfl⟩, g', _, ⟨hmake, rfl⟩, _, _, ⟨hconflict, rfl⟩, _, _, ⟨_, rfl⟩, _, _,
      ⟨_, rfl⟩, _, _, ⟨_, rfl⟩, hg, rfl⟩
    obtain rfl := Except.ok.inj hg
    exact ⟨hname, hmake, hconflict, rfl⟩
  · rintro ⟨hname, hmake, hconflict, rfl⟩
    exact ⟨(), _, ⟨hname, rfl⟩, g, _, ⟨hmake, rfl⟩, (), _, ⟨hconflict, rfl⟩, (), _, ⟨trivial, rfl⟩,
      (), _, ⟨trivial, rfl⟩, (), _, ⟨trivial, rfl⟩, rfl, rfl⟩

/-- **A refused grid leaves the draft as it was.** It is refused because its name is taken, because
    it is no grid, or because of a dimension that does not go with those in use. -/
theorem declareGrid_refused {name : String} {dims : List Dim}
    (h : d.declareGrid name dims = (.error e, d')) :
    d' = d ∧ (e = .duplicateName name d.solution.name ∨ Grid.fault? name dims = some e
      ∨ ∃ dim ∈ dims, d.solution.conflict? name dim = some e) := by
  simp only [declareGrid, Edit.declareGrid, run_bind_eq_error_iff, run_check, run_checks, run_changes,
    run_change, run_record, run_ofExcept, run_pure, Prod.mk.injEq, verdict_eq_ok_iff,
    verdict_eq_error_iff, Grid.make_eq_error_iff] at h
  rcases h with ⟨hname, rfl⟩ | ⟨_, _, ⟨_, rfl⟩, ⟨hfault, rfl⟩ | ⟨g, _, ⟨hmake, rfl⟩, h⟩⟩
  · exact ⟨rfl, Or.inl (Solution.nameFault?_eq_some_iff.mp hname).2⟩
  · exact ⟨rfl, Or.inr (Or.inl hfault)⟩
  obtain ⟨rfl, rfl⟩ := Grid.make_eq_ok_iff.mp hmake
  rcases h with ⟨hconflict, rfl⟩ | ⟨_, _, _, h⟩
  · exact ⟨rfl, Or.inr (Or.inr (List.exists_of_findSome?_eq_some hconflict))⟩
  · -- what comes after the checks is never refused
    simp at h

/-- **An equation is added** exactly if the solution owns all its points. Then it is recorded with the
    number of the equations before it, and entered. -/
theorem addEquation_eq_ok_iff {q : Equation} {u : Unit} :
    d.addEquation q = (.ok u, d') ↔
      (∀ p ∈ q.points, d.solution.owns p = true)
        ∧ d' = d.advance (d.solution.enterEquation q)
            (equationLine d.solution.equations.length q) := by
  simp only [addEquation, Edit.addEquation, run_bind_eq_ok_iff, run_checks, run_change, run_record,
    run_solution, Prod.mk.injEq, verdict_eq_ok_iff, List.findSome?_eq_none_iff,
    Solution.ownerFault?_eq_none_iff]
  constructor
  · rintro ⟨_, _, ⟨howns, rfl⟩, s, _, ⟨hs, rfl⟩, _, _, ⟨_, rfl⟩, _, rfl⟩
    obtain rfl := Except.ok.inj hs
    exact ⟨howns, rfl⟩
  · rintro ⟨howns, rfl⟩
    exact ⟨(), _, ⟨howns, rfl⟩, _, _, ⟨rfl, rfl⟩, (), _, ⟨trivial, rfl⟩, trivial, rfl⟩

/-- **A refused equation leaves the draft as it was.** It is refused because of a point that the
    solution does not own. -/
theorem addEquation_refused {q : Equation} (h : d.addEquation q = (.error e, d')) :
    d' = d ∧ ∃ p ∈ q.points, d.solution.owns p = false
      ∧ e = .unknownGrid p.grid.name d.solution.name := by
  simp only [addEquation, Edit.addEquation, run_bind_eq_error_iff, run_checks, run_change, run_record,
    run_solution, Prod.mk.injEq, verdict_eq_error_iff] at h
  rcases h with ⟨hfault, rfl⟩ | ⟨_, _, _, h⟩
  · obtain ⟨p, hp, hfault⟩ := List.exists_of_findSome?_eq_some hfault
    exact ⟨rfl, p, hp, Solution.ownerFault?_eq_some_iff.mp hfault⟩
  · simp at h

/-- **Two sides are equated** exactly if they make an equation and that is added. -/
theorem equate_eq_ok_iff {lhs : Point} {rhs : Expr} {q : Equation} :
    d.equate lhs rhs = (.ok q, d') ↔
      q.lhs = lhs ∧ q.rhs = rhs ∧ d.addEquation q = (.ok (), d') := by
  simp only [equate, Edit.equate, run_bind_eq_ok_iff, run_ofExcept, run_pure, Prod.mk.injEq,
    Equation.make_eq_ok_iff]
  constructor
  · rintro ⟨q', _, ⟨⟨hlhs, hrhs⟩, rfl⟩, _, _, hadd, hq, rfl⟩
    obtain rfl := Except.ok.inj hq
    exact ⟨hlhs, hrhs, hadd⟩
  · rintro ⟨hlhs, hrhs, hadd⟩
    exact ⟨q, d, ⟨⟨hlhs, hrhs⟩, rfl⟩, (), d', hadd, rfl, rfl⟩

/-- **Two sides that are refused leave the draft as it was.** They are refused because of their steps,
    before their grids are looked at, or because of a point that the solution does not own. -/
theorem equate_refused {lhs : Point} {rhs : Expr} (h : d.equate lhs rhs = (.error e, d')) :
    d' = d ∧ (Equation.fault? lhs rhs = some e ∨ Equation.fault? lhs rhs = none
      ∧ ∃ p ∈ lhs :: rhs.points, d.solution.owns p = false
        ∧ e = .unknownGrid p.grid.name d.solution.name) := by
  simp only [equate, Edit.equate, run_bind_eq_error_iff, run_ofExcept, run_pure, Prod.mk.injEq,
    Equation.make_eq_error_iff] at h
  rcases h with ⟨hfault, rfl⟩ | ⟨q, _, ⟨hmake, rfl⟩, h⟩
  · exact ⟨rfl, Or.inl hfault⟩
  obtain ⟨rfl, rfl⟩ := Equation.make_eq_ok_iff.mp hmake
  rcases h with hadd | ⟨_, _, _, h⟩
  · obtain ⟨rfl, howner⟩ := addEquation_refused hadd
    exact ⟨rfl, Or.inr ⟨q.sound, howner⟩⟩
  · simp at h

/-- A width is set exactly if it is a supported one, and nothing else changes. -/
theorem setElementBytes_eq_ok_iff {bytes : Nat} {u : Unit} :
    d.setElementBytes bytes = (.ok u, d') ↔
      ∃ w, Width.ofBytes? bytes = some w
        ∧ d' = { d with solution := { d.solution with width := w } } := by
  unfold setElementBytes Edit.setElementBytes
  cases Width.ofBytes? bytes with
  | none => simp
  | some w => simp [eq_comm]

/-- **A refused width leaves the draft as it was.** -/
theorem setElementBytes_refused {bytes : Nat} (h : d.setElementBytes bytes = (.error e, d')) :
    d' = d ∧ e = .unsupportedWidth bytes ∧ Width.ofBytes? bytes = none := by
  unfold setElementBytes Edit.setElementBytes at h
  cases hwidth : Width.ofBytes? bytes with
  | none =>
    rw [hwidth] at h
    obtain ⟨he, hd⟩ := Prod.mk.inj h
    exact ⟨hd.symm, (Except.error.inj he).symm, rfl⟩
  | some w =>
    rw [hwidth] at h
    simp at h

/-- **Rendering** records a line once the format is known, and changes nothing else. -/
theorem render_eq (d : Draft) (registry : Registry) (id : String) :
    d.render registry id = match registry.lookup id with
      | .error e => (.error e, d)
      | .ok f =>
        (f.render d.solution, d.record (renderLine d.solution.name id f.description)) := by
  unfold render Edit.render
  rw [run_bind, run_ofExcept]
  cases registry.lookup id with
  | error e => rfl
  | ok f =>
    dsimp only
    rw [run_bind, run_solution]
    dsimp only
    rw [run_bind, run_record]
    exact run_ofExcept _ _

end Draft

end Stencil
