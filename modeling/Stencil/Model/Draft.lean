import Stencil.Model.Sink
import Stencil.Model.Solution

/-!
# Drafts

A draft is a solution under construction together with the sink that records what is done to it. A
line is recorded for each change that succeeds, and a full sink never stops a change.

A call on a draft is an `Edit`. It goes through its checks and its changes one after the other, and
what it has changed when it is refused stays changed: nothing puts the draft back. That a refused
call has changed nothing is due to the order of its steps alone.
-/

namespace Stencil

/-- A solution and where its changes are recorded, if anywhere. -/
structure Draft where
  solution : Solution
  log : Option Sink
  deriving DecidableEq

namespace Draft

/-- The draft of a new solution. -/
def new (name : String) (log : Option Sink) : Draft := ⟨.new name, log⟩

/-- Records a line. -/
def record (d : Draft) (line : String) : Draft := { d with log := d.log.map (·.writeLine line) }

/-- The record of a grid. -/
def gridLine (g : Grid) : String := "Grid " ++ g.text ++ " declared."

/-- The record of an equation with its index. -/
def equationLine (index : Nat) (e : Equation) : String :=
  "Equation " ++ toString index ++ ": " ++ e.text

/-- The record of a rendering. -/
def renderLine (solution id description : String) : String :=
  s!"Formatting solution '{solution}' as '{id}' ({description})."

end Draft

/-! ## Edits -/

/-- A call on a draft: it reads and changes the draft step by step, and gives a result or a refusal.
    -/
abbrev Edit (α : Type) := ExceptT Error (StateM Draft) α

/-- Makes a call: its result, and the draft as the call leaves it, refused or not. -/
def Draft.run {α : Type} (d : Draft) (call : Edit α) : Except Error α × Draft :=
  (ExceptT.run call).run d

namespace Edit

/-- The solution as it is now. -/
def solution : Edit Solution := return (← get).solution

/-- Changes the solution. -/
def change (f : Solution → Solution) : Edit Unit :=
  modify fun d => { d with solution := f d.solution }

/-- Records a line. -/
def record (line : String) : Edit Unit := modify (·.record line)

/-- Refuses to go on if the solution has the fault. -/
def check (fault? : Solution → Option Error) : Edit Unit := do
  match fault? (← solution) with
  | some e => throw e
  | none => return ()

/-- **Declares a grid** of a new name, over dimensions that go with those in use. -/
def declareGrid (name : String) (dims : List Dim) : Edit Grid := do
  check (·.nameFault? name)
  let g ← ofExcept (Grid.make name dims)
  g.dims.forM fun d => check (·.conflict? g.name d)
  g.dims.forM fun d => change (·.enterDim d)
  change (·.enterGrid g)
  record (Draft.gridLine g)
  return g

/-- **Adds an equation** over the grids of the solution. It is recorded with its index before it is
    entered. -/
def addEquation (e : Equation) : Edit Unit := do
  e.points.forM fun p => check (·.ownerFault? p)
  let s ← solution
  record (Draft.equationLine s.equations.length e)
  change (·.enterEquation e)

/-- Builds an equation and adds it. -/
def equate (lhs : Point) (rhs : Expr) : Edit Equation := do
  let e ← ofExcept (Equation.make lhs rhs)
  addEquation e
  return e

/-- Sets the width of the elements, which is not recorded. -/
def setElementBytes (bytes : Nat) : Edit Unit :=
  match Width.ofBytes? bytes with
  | some w => change fun s => { s with width := w }
  | none => throw (.unsupportedWidth bytes)

end Edit

namespace Draft

@[inherit_doc Edit.declareGrid]
def declareGrid (d : Draft) (name : String) (dims : List Dim) : Except Error Grid × Draft :=
  d.run (Edit.declareGrid name dims)

@[inherit_doc Edit.addEquation]
def addEquation (d : Draft) (e : Equation) : Except Error Unit × Draft := d.run (Edit.addEquation e)

@[inherit_doc Edit.equate]
def equate (d : Draft) (lhs : Point) (rhs : Expr) : Except Error Equation × Draft :=
  d.run (Edit.equate lhs rhs)

@[inherit_doc Edit.setElementBytes]
def setElementBytes (d : Draft) (bytes : Nat) : Except Error Unit × Draft :=
  d.run (Edit.setElementBytes bytes)

end Draft

end Stencil
