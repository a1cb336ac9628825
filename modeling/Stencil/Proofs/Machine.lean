import Mathlib
import Stencil.Format.Calc
import Stencil.Proofs.Interpretation

/-!
# Executing generated code

A machine for the statements of `Calc`. Storage gives every cell a value, a **cell** being a grid
with an integer for each of its dimensions. A register has a value in every lane; scalar code uses
the first lane alone, and vector code stores the first `VLEN`. Operators work lane by lane.

Addresses are evaluated by name. In the body of a function a name is worth what the caller passed
for the dimension; in a loop over the lanes the counter is called `lane`, and hides a dimension of
that name (`inLoop`). So the machine does what the text of the loop does, and not what the loop is
meant to do.

A statement is stuck if it reads an undefined register, or an array that was not declared and filled
before it. The functions here are total: being stuck is `none`.
-/

namespace Stencil

universe u

namespace Calc

/-! ## Cells -/

/-- An element of a grid, by its indices. -/
structure Cell where
  grid : String
  indices : List Int
  deriving DecidableEq

/-- Indices that are the same but for the last one, which is `k` further on. -/
def shiftLast (k : Int) : List Int → List Int
  | [] => []
  | [i] => [i + k]
  | i :: is => i :: shiftLast k is

/-- The cell that a pointer to a cell reaches when it is moved on by `k` elements. -/
def Cell.past (c : Cell) (k : Nat) : Cell := ⟨c.grid, shiftLast k c.indices⟩

/-- What an index is worth where names have the given values. The lane is a name like any other. -/
def AddressIndex.eval (i : AddressIndex) (env : String → Int) : Int :=
  env i.dim + (if i.lane then env "lane" else 0) + i.offset.toInt

/-- The cell at an address where names have the given values. -/
def Address.cell (a : Address) (env : String → Int) : Cell :=
  ⟨a.grid, a.indices.map fun i => i.eval env⟩

/-- What names are worth in a loop over the lanes, when it has come to lane `j`: the counter hides
    whatever was called `lane` outside. -/
def inLoop (here : String → Int) (j : Nat) : String → Int := Function.update here "lane" j

/-! ## Machines -/

variable {V : Type u}

/-- The state of a calculation. An array is absent, declared, or filled with a value a lane. -/
structure Machine (V : Type u) where
  storage : Cell → V
  temps : Temp → Option (Nat → V)
  /-- The arrays `tempN_lanes`. -/
  lanes : Temp → Option (Option (Nat → V))
  /-- The array `out_lanes`. -/
  out : Option (Option (Nat → V))

namespace Machine

/-- A calculation that has not begun. -/
def start (storage : Cell → V) : Machine V := ⟨storage, fun _ => none, fun _ => none, none⟩

/-- Gives a register a value. -/
def setTemp (m : Machine V) (t : Temp) (v : Nat → V) : Machine V :=
  { m with temps := Function.update m.temps t (some v) }

/-- Gives an array of lanes a state. -/
def setLanes (m : Machine V) (t : Temp) (contents : Option (Nat → V)) : Machine V :=
  { m with lanes := Function.update m.lanes t (some contents) }

end Machine

/-- Storage after `count` lanes are written, the first one first. -/
def writeLanes (count : Nat) (cell : Nat → Cell) (v : Nat → V) (storage : Cell → V) : Cell → V :=
  (List.range count).foldl (fun storage j => Function.update storage (cell j) (v j)) storage

/-- **One statement**, with `count` lanes, where the names of the function have the given values. -/
def Stmt.step (I : Interpretation V) (count : Nat) (here : String → Int) (m : Machine V) :
    Stmt → Option (Machine V)
  | .note _ => some m
  | .constant dst value => some (m.setTemp dst fun _ => I.const value.bits)
  | .compute dst op lhs rhs =>
    match m.temps lhs, m.temps rhs with
    | some a, some b => some (m.setTemp dst fun j => I.op op (a j) (b j))
    | _, _ => none
  | .loadOne dst a => some (m.setTemp dst fun _ => m.storage (a.cell here))
  | .loadRow dst a => some (m.setTemp dst fun j => m.storage ((a.cell here).past j))
  | .loadSplat dst a => some (m.setTemp dst fun _ => m.storage (a.cell here))
  | .declareLanes dst => some (m.setLanes dst none)
  | .fillLanes dst a =>
    match m.lanes dst with
    | some _ => some (m.setLanes dst (some fun j => m.storage (a.cell (inLoop here j))))
    | none => none
  | .loadLanes dst =>
    match m.lanes dst with
    | some (some v) => some (m.setTemp dst v)
    | _ => none
  | .storeOne a src =>
    match m.temps src with
    | some v => some { m with storage := Function.update m.storage (a.cell here) (v 0) }
    | none => none
  | .storeRow a src =>
    match m.temps src with
    | some v => some { m with storage := writeLanes count (a.cell here).past v m.storage }
    | none => none
  | .declareOut => some { m with out := some none }
  | .fillOut src =>
    match m.out, m.temps src with
    | some _, some v => some { m with out := some (some v) }
    | _, _ => none
  | .storeLast a =>
    match m.out with
    | some (some v) =>
      some { m with storage := Function.update m.storage (a.cell here) (v (count - 1)) }
    | _ => none
  | .storeLanes a =>
    match m.out with
    | some (some v) =>
      some { m with storage := writeLanes count (fun j => a.cell (inLoop here j)) v m.storage }
    | _ => none

/-- Statements in order. -/
def execute (I : Interpretation V) (count : Nat) (here : String → Int) :
    List Stmt → Machine V → Option (Machine V)
  | [], m => some m
  | s :: ss, m => (s.step I count here m).bind (execute I count here ss)

/-- **The function of a kernel**, called where the dimensions have the given values: the storage
    that it leaves. -/
def Plan.calc (I : Interpretation V) (plan : Plan) (k : Kernel) (here : String → Int)
    (storage : Cell → V) : Option (Cell → V) :=
  (execute I (plan.target.lanes plan.width.bytes) here (plan.body k) (.start storage)).map
    Machine.storage

/-- The dimensions' values `j` elements further along a dimension, if there is one. -/
def along (dim : Option String) (here : String → Int) (j : Nat) : String → Int :=
  fun d => if some d = dim then here d + j else here d

/-- **The function of a kernel, called `count` times** along a dimension, or where it is if there is
    none. -/
def Plan.sweep (I : Interpretation V) (plan : Plan) (k : Kernel) (dim : Option String)
    (here : String → Int) (count : Nat) (storage : Cell → V) : Option (Cell → V) :=
  (List.range count).foldlM (fun storage j => plan.calc I k (along dim here j) storage) storage

theorem execute_append (I : Interpretation V) (count : Nat) (here : String → Int)
    (ss ts : List Stmt) (m : Machine V) :
    execute I count here (ss ++ ts) m
      = (execute I count here ss m).bind (execute I count here ts) := by
  induction ss generalizing m with
  | nil => rfl
  | cons s ss ih =>
    rw [List.cons_append, execute, execute, Option.bind_assoc]
    congr 1
    funext m'
    exact ih m'

end Calc

end Stencil
