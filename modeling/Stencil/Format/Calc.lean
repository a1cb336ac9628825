import Stencil.Format.Target
import Stencil.Kernel

/-!
# Bodies of generated functions

The code for a kernel at one point of the domain, as statements of a small language and as C++ text.
Scalar code computes one element. Vector code computes as many consecutive elements along the
innermost domain dimension as a register holds; how it reaches a grid depends on where that
dimension stands among the grid's (`Access`).
-/

namespace Stencil

/-! ## Literals -/

/-- The layout of the elements. -/
def Width.layout : Width → Layout
  | single => .single
  | double => .double

/-- The word, without sign, of a constant as an element: the constant rounded to the nearest element
    and the even one of two. A NaN stays none. -/
def Width.narrow (w : Width) (v : Double) : Nat :=
  match w with
  | double => v.magnitude
  | single =>
    if v.isNaN then Layout.single.infinity + 1
    else if v.isInfinite then Layout.single.infinity
    else Layout.single.nearest (Layout.double.units v.magnitude) (Nat.pow 2 Layout.double.scale)

/-- What marks a literal as one of the element type. -/
def Width.literalSuffix : Width → String
  | single => "f"
  | double => ""

/-- A constant as an expression of the element type. -/
def Width.literal (w : Width) (v : Double) : String :=
  let word := w.narrow v
  if w.layout.infinity < word then "std::numeric_limits<real_t>::quiet_NaN()"
  else if word = w.layout.infinity then
    (if v.isNegative then "-" else "") ++ "std::numeric_limits<real_t>::infinity()"
  else
    Style.literal.text w.layout v.isNegative word ++ w.literalSuffix

namespace Calc

/-! ## Plans -/

/-- How the code for a solution is laid out. -/
structure Plan where
  target : Target
  width : Width
  /-- The dimension along which vector code goes. -/
  vectorDim : Option String
  /-- The dimensions that a function takes: the step dimension, then the domain dimensions. -/
  params : List String

/-- The plan for a solution and a target. -/
def Plan.of (s : Solution) (t : Target) : Plan where
  target := t
  width := s.width
  vectorDim := if t.isVector then s.domainDims.getLast?.map Dim.name else none
  params := (s.stepDim?.toList ++ s.domainDims).map Dim.name

/-- How vector code reaches the elements of a grid. -/
inductive Access where
  /-- Along the grid's last dimension: consecutive elements. -/
  | contiguous
  /-- Along no dimension of the grid: one element for all lanes. -/
  | broadcast
  /-- Along another dimension of the grid: element by element. -/
  | strided
  deriving DecidableEq, Repr

/-- How vector code reaches a point. -/
def Plan.access (plan : Plan) (p : Point) : Access :=
  match plan.vectorDim with
  | none => .broadcast
  | some dim =>
    match p.grid.dimNames.idxOf? dim with
    | none => .broadcast
    | some i => if i + 1 = p.grid.dims.length then .contiguous else .strided

/-! ## Addresses -/

/-- An index: a dimension, the lane if the element of one lane is meant, and an offset. -/
structure AddressIndex where
  dim : String
  lane : Bool
  offset : Int64
  deriving DecidableEq

/-- An element of a grid. -/
structure Address where
  grid : String
  indices : List AddressIndex
  deriving DecidableEq

/-- The address of a point, or of one lane of it. -/
def Plan.address (plan : Plan) (p : Point) (lane : Bool) : Address where
  grid := p.grid.name
  indices := p.indices.map fun (d, offset) =>
    ⟨d.name, lane && some d.name == plan.vectorDim, offset⟩

def AddressIndex.text (i : AddressIndex) : String :=
  let base := i.dim ++ (if i.lane then " + lane" else "")
  if i.offset = 0 then base
  else if 0 < i.offset.toInt then base ++ " + " ++ toString i.offset.toInt
  else base ++ " - " ++ toString i.offset.toInt.natAbs

def Address.text (a : Address) : String :=
  "grids." ++ a.grid ++ "(" ++ Text.join ", " (a.indices.map AddressIndex.text) ++ ")"

/-! ## Statements -/

/-- A statement of generated code. `tempN_lanes` and `out_lanes` are arrays of one element a lane,
    through which registers are filled and emptied lane by lane. -/
inductive Stmt where
  /-- A comment. -/
  | note (text : String)
  /-- `dst` is a constant. -/
  | constant (dst : Temp) (value : Double)
  /-- `dst` is the result of an operation. -/
  | compute (dst : Temp) (op : Operator) (lhs rhs : Temp)
  /-- `dst` is an element. -/
  | loadOne (dst : Temp) (a : Address)
  /-- `dst` is a row of consecutive elements. -/
  | loadRow (dst : Temp) (a : Address)
  /-- `dst` is one element in every lane. -/
  | loadSplat (dst : Temp) (a : Address)
  /-- Declares the lanes of `dst`. -/
  | declareLanes (dst : Temp)
  /-- Fills the lanes of `dst`. -/
  | fillLanes (dst : Temp) (a : Address)
  /-- `dst` is made of its lanes. -/
  | loadLanes (dst : Temp)
  /-- Stores an element. -/
  | storeOne (a : Address) (src : Temp)
  /-- Stores a row of consecutive elements. -/
  | storeRow (a : Address) (src : Temp)
  /-- Declares the lanes to be stored. -/
  | declareOut
  /-- Fills the lanes to be stored. -/
  | fillOut (src : Temp)
  /-- Stores the last lane, whose write comes last. -/
  | storeLast (a : Address)
  /-- Stores every lane. -/
  | storeLanes (a : Address)
  deriving DecidableEq

/-- The statements that load a point. -/
def Plan.load (plan : Plan) (dst : Temp) (p : Point) : List Stmt :=
  if plan.target.isVector then
    match plan.access p with
    | .contiguous => [.loadRow dst (plan.address p false)]
    | .broadcast => [.loadSplat dst (plan.address p false)]
    | .strided => [.declareLanes dst, .fillLanes dst (plan.address p true), .loadLanes dst]
  else
    [.loadOne dst (plan.address p false)]

/-- The statements that store a result at a point. -/
def Plan.store (plan : Plan) (p : Point) (src : Temp) : List Stmt :=
  if plan.target.isVector then
    match plan.access p with
    | .contiguous => [.storeRow (plan.address p false) src]
    | .broadcast => [.declareOut, .fillOut src, .storeLast (plan.address p false)]
    | .strided => [.declareOut, .fillOut src, .storeLanes (plan.address p true)]
  else
    [.storeOne (plan.address p false) src]

/-- The statements of an instruction. -/
def Plan.instr (plan : Plan) (i : Instr) : List Stmt :=
  match i.operation with
  | .load p => .note p.text :: plan.load i.dst p
  | .const v => [.constant i.dst v]
  | .binary op lhs rhs => [.compute i.dst op lhs rhs]

/-- The statements of a kernel. -/
def Plan.body (plan : Plan) (k : Kernel) : List Stmt :=
  k.instrs.flatMap plan.instr
    ++ .note (k.store.text ++ " = " ++ k.result.text) :: plan.store k.store k.result

/-! ## Text -/

/-- The name of a vector instruction. -/
def Plan.intrinsic (plan : Plan) (op : String) : String :=
  plan.target.intrinsic op plan.width.bytes

/-- The type of temporaries. -/
def Plan.tempType (plan : Plan) : String :=
  if plan.target.isVector then "real_vec_t" else "real_t"

/-- The right-hand side that gives a constant. -/
def Plan.constantText (plan : Plan) (v : Double) : String :=
  let literal := plan.width.literal v
  if plan.target.isVector then plan.intrinsic "set1" ++ "(" ++ literal ++ ")" else literal

/-- The right-hand side that gives the result of an operation. -/
def Plan.computeText (plan : Plan) (op : Operator) (lhs rhs : Temp) : String :=
  if plan.target.isVector then
    plan.intrinsic op.mnemonic ++ "(" ++ lhs.text ++ ", " ++ rhs.text ++ ")"
  else
    lhs.text ++ " " ++ op.symbol ++ " " ++ rhs.text

/-- A loop over the lanes. -/
def laneLoop : String := "for (idx_t lane = 0; lane < VLEN; lane++) "

/-- The array of the lanes of a temporary. -/
def lanesName (t : Temp) : String := t.text ++ "_lanes"

/-- The line of a statement. -/
def Plan.stmtText (plan : Plan) : Stmt → String
  | .note text => "// " ++ text
  | .constant dst v =>
    "const " ++ plan.tempType ++ " " ++ dst.text ++ " = " ++ plan.constantText v ++ ";"
  | .compute dst op lhs rhs =>
    "const " ++ plan.tempType ++ " " ++ dst.text ++ " = " ++ plan.computeText op lhs rhs ++ ";"
  | .loadOne dst a => "const real_t " ++ dst.text ++ " = *" ++ a.text ++ ";"
  | .loadRow dst a =>
    "const real_vec_t " ++ dst.text ++ " = " ++ plan.intrinsic "loadu" ++ "(" ++ a.text ++ ");"
  | .loadSplat dst a =>
    "const real_vec_t " ++ dst.text ++ " = " ++ plan.intrinsic "set1" ++ "(*" ++ a.text ++ ");"
  | .declareLanes dst => "real_t " ++ lanesName dst ++ "[VLEN];"
  | .fillLanes dst a => laneLoop ++ lanesName dst ++ "[lane] = *" ++ a.text ++ ";"
  | .loadLanes dst =>
    "const real_vec_t " ++ dst.text ++ " = " ++ plan.intrinsic "loadu"
      ++ "(" ++ lanesName dst ++ ");"
  | .storeOne a src => "*" ++ a.text ++ " = " ++ src.text ++ ";"
  | .storeRow a src => plan.intrinsic "storeu" ++ "(" ++ a.text ++ ", " ++ src.text ++ ");"
  | .declareOut => "real_t out_lanes[VLEN];"
  | .fillOut src => plan.intrinsic "storeu" ++ "(out_lanes, " ++ src.text ++ ");"
  | .storeLast a => "*" ++ a.text ++ " = out_lanes[VLEN - 1];"
  | .storeLanes a => laneLoop ++ "*" ++ a.text ++ " = out_lanes[lane];"

/-- The lines of a kernel's body. -/
def Plan.bodyLines (plan : Plan) (k : Kernel) : List String :=
  (plan.body k).map fun stmt => "        " ++ plan.stmtText stmt

end Calc

end Stencil
