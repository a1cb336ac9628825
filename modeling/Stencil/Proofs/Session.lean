import Mathlib
import Stencil.Proofs.Edits

/-!
# Sessions

A session is a list of calls on a solution under construction, with any arguments. Each call is run
on the draft that the one before it left, whether that one was accepted or refused. A call here is
what a caller can do from outside: the four edits, the choice of another record, and a rendering.
Their results are dropped, because a session is about what is left behind.

What a call can do to the solution is said once, by `Solution.Change`: nothing, one more grid whose
dimensions go with those in use, one more equation over the solution's own grids, or another width
(`Draft.perform_change`). Every invariant of sessions follows from these four cases by
`Draft.after_induct`: a proof that something always holds of a solution looks at the four changes,
and at no call, no check and no order of steps. What a call does to the record is said with the
record.

Contents: what becomes of a call whose result is dropped (`Draft.run_drop`, the `perform_*` lemmas),
the list of changes, and one `*_change` lemma for each call, read off its two statements about
acceptance and refusal.
-/

namespace Stencil

/-- A call on a solution under construction. -/
inductive Call where
  | declareGrid (name : String) (dims : List Dim)
  | addEquation (e : Equation)
  | equate (lhs : Point) (rhs : Expr)
  | setElementBytes (bytes : Nat)
  /-- Records later changes elsewhere, or nowhere. -/
  | setLog (log : Option Sink)
  /-- Renders the solution into a sink. -/
  | render (registry : Registry) (id : String) (out : Sink)

/-- What a call does, with its result dropped. -/
def Call.edit : Call → Edit Unit
  | declareGrid name dims => do
    let _ ← Edit.declareGrid name dims
    return ()
  | addEquation e => .addEquation e
  | equate lhs rhs => do
    let _ ← Edit.equate lhs rhs
    return ()
  | setElementBytes bytes => .setElementBytes bytes
  | setLog log => modify fun d => { d with log := log }
  | render registry id out => do
    let text ← Edit.render registry id
    let _ ← ofExcept (out.write text)
    return ()

namespace Draft

/-- **One call**: its result, and the draft as the call leaves it. -/
def perform (d : Draft) (c : Call) : Except Error Unit × Draft := d.run c.edit

/-- The draft after a session. -/
def after (d : Draft) (calls : List Call) : Draft := calls.foldl (fun d c => (d.perform c).2) d

/-- **What every call keeps, a session keeps**, whatever its calls are and whichever of them are
    refused. -/
theorem after_induct {P : Draft → Prop} (hcall : ∀ d c, P d → P (d.perform c).2)
    (calls : List Call) : ∀ {d}, P d → P (d.after calls) := by
  induction calls with
  | nil => intro d hd; exact hd
  | cons c calls ih => intro d hd; exact ih (hcall d c hd)

/-! ## Results that are dropped -/

/-- A call whose result is dropped leaves what it leaves, and is refused as it is. -/
theorem run_drop {α : Type} (d : Draft) (call : Edit α) :
    d.run (do let _ ← call; return ()) = ((d.run call).1.map fun _ => (), (d.run call).2) := by
  rw [run_bind]
  cases hrun : d.run call with
  | mk r d' =>
    cases r with
    | ok a => rfl
    | error e => rfl

/-- A call without a result loses nothing when its result is dropped. -/
theorem run_unit (d : Draft) (call : Edit Unit) :
    d.run call = ((d.run call).1.map fun _ => (), (d.run call).2) := by
  rcases d.run call with ⟨_ | _, _⟩ <;> rfl

/-- As a call of a session, a declaration leaves the draft that it leaves on its own; the grid it
    returns is dropped. -/
theorem perform_declareGrid (d : Draft) (name : String) (dims : List Dim) :
    d.perform (.declareGrid name dims)
      = ((d.declareGrid name dims).1.map fun _ => (), (d.declareGrid name dims).2) :=
  d.run_drop _

/-- As a call of a session, an equation leaves the draft that it leaves on its own; the equation it
    returns is dropped. -/
theorem perform_equate (d : Draft) (lhs : Point) (rhs : Expr) :
    d.perform (.equate lhs rhs)
      = ((d.equate lhs rhs).1.map fun _ => (), (d.equate lhs rhs).2) :=
  d.run_drop _

theorem perform_setElementBytes (d : Draft) (bytes : Nat) :
    d.perform (.setElementBytes bytes) = d.setElementBytes bytes := rfl

/-- What is written elsewhere does not concern the draft: a rendering leaves the same draft whether
    or not its sink takes the text. -/
theorem perform_render (d : Draft) (registry : Registry) (id : String) (out : Sink) :
    (d.perform (.render registry id out)).2 = (d.render registry id).2 := by
  show (d.run (Edit.render registry id >>= fun text => do
    let _ ← (ofExcept (out.write text) : Edit Sink)
    return ())).2 = (d.run (Edit.render registry id)).2
  rw [run_bind]
  cases hrun : d.run (Edit.render registry id) with
  | mk r d' =>
    cases r with
    | error e => rfl
    | ok text =>
      dsimp only
      rw [run_drop, run_ofExcept]

end Draft

/-! ## What a call can do -/

namespace Solution

/-- What a call can do to a solution. -/
inductive Change (s : Solution) : Solution → Prop where
  | nothing : Change s s
  | grid (g : Grid) (hname : s.grid? g.name = none)
      (hdims : ∀ d ∈ g.dims, s.conflict? g.name d = none) : Change s (s.withGrid g)
  | equation (e : Equation) (howns : ∀ p ∈ e.points, s.owns p = true) :
      Change s (s.enterEquation e)
  | width (w : Width) : Change s { s with width := w }

end Solution

namespace Draft

/-- A call changes the solution as it does where it is accepted, or not at all. -/
theorem change_of_run {α : Type} {d : Draft} {call : Edit α}
    (hrefused : ∀ {e d'}, d.run call = (.error e, d') → d' = d)
    (hok : ∀ {a d'}, d.run call = (.ok a, d') → d.solution.Change d'.solution) :
    d.solution.Change (d.run call).2.solution := by
  cases hrun : d.run call with
  | mk r d' =>
    cases r with
    | error e =>
      obtain rfl := hrefused hrun
      exact .nothing
    | ok a => exact hok hrun

/-- A declared grid has a name that no other grid has, and dimensions that go with those in use; a
    refused one is no change at all. -/
theorem declareGrid_change (d : Draft) (name : String) (dims : List Dim) :
    d.solution.Change (d.declareGrid name dims).2.solution := by
  refine change_of_run (fun h => (declareGrid_refused h).1) fun {g _} h => ?_
  obtain ⟨hname, hmake, hdims, rfl⟩ := declareGrid_eq_ok_iff.mp h
  obtain ⟨rfl, _⟩ := Grid.make_eq_ok_iff.mp hmake
  exact .grid g hname hdims

/-- An added equation reads and writes grids of the solution only, since every point of it has been
    looked up there. -/
theorem addEquation_change (d : Draft) (e : Equation) :
    d.solution.Change (d.addEquation e).2.solution := by
  refine change_of_run (fun h => (addEquation_refused h).1) fun h => ?_
  obtain ⟨howns, rfl⟩ := addEquation_eq_ok_iff.mp h
  exact .equation e howns

/-- An equation that is made and added is a change like any equation: making it changes nothing
    yet. -/
theorem equate_change (d : Draft) (lhs : Point) (rhs : Expr) :
    d.solution.Change (d.equate lhs rhs).2.solution := by
  refine change_of_run (fun h => (equate_refused h).1) fun {e _} h => ?_
  -- both sides are known to fit by now, so that what is left is an ordinary addition
  obtain ⟨_, _, hadd⟩ := equate_eq_ok_iff.mp h
  have hchange := d.addEquation_change e
  rwa [hadd] at hchange

/-- Only a width that exists is ever set: any other count of bytes is refused before the solution
    changes. -/
theorem setElementBytes_change (d : Draft) (bytes : Nat) :
    d.solution.Change (d.setElementBytes bytes).2.solution := by
  refine change_of_run (fun h => (setElementBytes_refused h).1) fun h => ?_
  obtain ⟨w, _, rfl⟩ := setElementBytes_eq_ok_iff.mp h
  exact .width w

/-- Rendering changes the record alone, whether the format is known or not. -/
theorem render_solution (d : Draft) (registry : Registry) (id : String) :
    (d.render registry id).2.solution = d.solution := by
  rw [render_eq]
  cases registry.lookup id with
  | error e => rfl
  | ok f => rfl

/-- **What a call can do to the solution.** Six kinds of calls come down to four changes, and every
    refusal is the change that does nothing. -/
theorem perform_change (d : Draft) (c : Call) : d.solution.Change (d.perform c).2.solution := by
  cases c with
  | declareGrid name dims =>
    rw [perform_declareGrid]
    exact d.declareGrid_change name dims
  | addEquation e => exact d.addEquation_change e
  | equate lhs rhs =>
    rw [perform_equate]
    exact d.equate_change lhs rhs
  | setElementBytes bytes => exact d.setElementBytes_change bytes
  | setLog log => exact .nothing
  | render registry id out =>
    -- the text goes to a sink that is no part of the draft
    rw [perform_render, render_solution]
    exact .nothing

end Draft

end Stencil
