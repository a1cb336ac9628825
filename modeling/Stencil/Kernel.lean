import Stencil.Model.Solution
import Stencil.Model.Supply

/-!
# Kernels

A kernel is an equation as straight-line code: each instruction gives a temporary the value of a
point, of a constant or of an operation on two earlier temporaries, and the last value is stored at
the equation's left-hand side. Instructions come in the order of evaluation of the tree.

A point is loaded once, wherever it occurs. With sharing, equal constants and equal operations on
equal temporaries are also computed once; constants are equal if their words are.
-/

namespace Stencil

/-- How an instruction gets its value. -/
inductive Operation where
  | load (p : Point)
  | const (value : Double)
  | binary (op : Operator) (lhs rhs : Temp)
  deriving DecidableEq

/-- A temporary and how it gets its value. -/
structure Instr where
  dst : Temp
  operation : Operation
  deriving DecidableEq

/-- An equation of a solution as straight-line code. -/
structure Kernel where
  index : Nat
  equation : Equation
  instrs : List Instr
  result : Temp
  deriving DecidableEq

/-! ## Lowering -/

/-- The instructions so far and the temporaries left. -/
structure Lowering where
  supply : Supply
  instrs : List Instr
  deriving DecidableEq

namespace Lowering

def start : Lowering := ⟨.full, []⟩

/-- The temporary that already has the value of an operation. -/
def find? (l : Lowering) (operation : Operation) : Option Temp :=
  (l.instrs.find? (·.operation == operation)).map Instr.dst

/-- A new instruction for an operation. -/
def append (l : Lowering) (operation : Operation) : Temp × Lowering :=
  let (dst, supply) := l.supply.takeTemp
  (dst, ⟨supply, l.instrs ++ [⟨dst, operation⟩]⟩)

/-- A temporary with the value of an operation: an earlier one if values are shared and there is
    one, else a new one. -/
def emit (l : Lowering) (share : Bool) (operation : Operation) : Temp × Lowering :=
  if share then
    match l.find? operation with
    | some t => (t, l)
    | none => l.append operation
  else
    l.append operation

/-- A temporary with the value of an expression. Its instructions come after those of its operands,
    the left one first. -/
def lower (share : Bool) : Expr → Lowering → Temp × Lowering
  | .const v, l => l.emit share (.const v)
  | .point p, l => l.emit true (.load p)
  | .binary op lhs rhs, l =>
    let (a, l) := lower share lhs l
    let (b, l) := lower share rhs l
    l.emit share (.binary op a b)

end Lowering

/-- The kernel of the equation with the given index. An equation that divides by zero has none. -/
def Equation.lower (e : Equation) (index : Nat) (share : Bool) : Except Error Kernel :=
  match e.rhs.zeroDivision? with
  | some err => .error err
  | none =>
    let (result, l) := Lowering.lower share e.rhs .start
    .ok ⟨index, e, l.instrs, result⟩

/-- The kernels of equations that are numbered from the given index on. -/
def lowerFrom (share : Bool) : Nat → List Equation → Except Error (List Kernel)
  | _, [] => .ok []
  | index, e :: es =>
    match e.lower index share with
    | .error err => .error err
    | .ok k => (lowerFrom share (index + 1) es).map (k :: ·)

/-- The kernels of all equations, in order, or the error of the first equation that has none. -/
def Solution.lower (s : Solution) (share : Bool) : Except Error (List Kernel) :=
  lowerFrom share 0 s.equations

/-! ## Views -/

namespace Operation

def isLoad : Operation → Bool
  | load _ => true
  | _ => false

def isBinary : Operation → Bool
  | binary _ _ _ => true
  | _ => false

def text : Operation → String
  | load p => p.text
  | const v => v.text
  | binary op lhs rhs => lhs.text ++ " " ++ op.symbol ++ " " ++ rhs.text

end Operation

namespace Kernel

/-- The point that the result is stored at. -/
def store (k : Kernel) : Point := k.equation.lhs

/-- The number of points that are loaded. -/
def numLoads (k : Kernel) : Nat := k.instrs.countP (·.operation.isLoad)

/-- The number of arithmetic operations. -/
def numOps (k : Kernel) : Nat := k.instrs.countP (·.operation.isBinary)

/-- The line of an instruction. -/
def instrLine (i : Instr) : String := "  " ++ i.dst.text ++ " = " ++ i.operation.text ++ ";\n"

/-- The equation, its instructions and the store. -/
def text (k : Kernel) : String :=
  "Equation " ++ toString k.index ++ ": " ++ k.equation.text ++ "\n"
    ++ String.join (k.instrs.map instrLine)
    ++ "  " ++ k.store.text ++ " = " ++ k.result.text ++ ";\n"

end Kernel

end Stencil
