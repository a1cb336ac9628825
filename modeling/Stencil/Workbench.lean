import Stencil.Format.Registry

/-!
# Workbenches

A workbench builds solutions from a script. It keeps what the script makes in named registers, one
set of names for each kind of thing, and holds the sinks that the script opens. Several registers
may stand for one sink, which may also record the changes of solutions.

A step is an `Act`: it looks registers up and changes them one after the other, and what it has
changed when it is refused stays changed.
-/

namespace Stencil

/-! ## Registers -/

/-- The kinds of things that have registers. -/
inductive RegisterKind where
  | dim | grid | point | expr | equation | solution | output | registry
  deriving DecidableEq, Repr

def RegisterKind.text : RegisterKind → String
  | dim => "dim"
  | grid => "grid"
  | point => "point"
  | expr => "expr"
  | equation => "equation"
  | solution => "solution"
  | output => "output"
  | registry => "registry"

/-- Named things of one kind, each name once. -/
structure Registers (α : Type) where
  entries : List (String × α)

namespace Registers

def empty {α : Type} : Registers α := ⟨[]⟩

/-- What a name stands for. -/
def get? {α : Type} (r : Registers α) (name : String) : Option α := r.entries.lookup name

/-- Entries in which a name stands for something: in its old place, or in the last one if it is new.
    -/
def put {α : Type} (name : String) (a : α) : List (String × α) → List (String × α)
  | [] => [(name, a)]
  | entry :: entries =>
    if entry.1 == name then (entry.1, a) :: entries else entry :: put name a entries

/-- Lets a name stand for something, whatever it stood for before. -/
def set {α : Type} (r : Registers α) (name : String) (a : α) : Registers α :=
  ⟨put name a r.entries⟩

/-- Lets a name stand for something, if there is a name. -/
def setSome {α : Type} (r : Registers α) (name : Option String) (a : α) : Registers α :=
  match name with
  | some n => r.set n a
  | none => r

end Registers

/-- Why a step is refused. -/
inductive Refusal where
  /-- A register that nothing was put into. -/
  | noSuchRegister (kind : RegisterKind) (name : String)
  /-- The left-hand side of an equation that is no point. -/
  | notAPoint
  /-- A refusal by the model, a format or a sink. -/
  | model (e : Error)

/-- A sink that the workbench holds. -/
structure SinkId where
  index : Nat
  deriving DecidableEq, Repr

/-- A solution and the sink that records its changes. -/
structure Desk where
  solution : Solution
  log : Option SinkId

structure Workbench where
  dims : Registers Dim
  grids : Registers Grid
  points : Registers Point
  exprs : Registers Expr
  equations : Registers Equation
  solutions : Registers Desk
  outputs : Registers SinkId
  registries : Registers Registry
  sinks : List Sink

namespace Workbench

/-- A workbench with nothing on it. -/
def empty : Workbench :=
  ⟨.empty, .empty, .empty, .empty, .empty, .empty, .empty, .empty, []⟩

/-! ## Sinks and drafts -/

/-- A sink that the workbench holds. -/
def sink (w : Workbench) (id : SinkId) : Sink := w.sinks.getD id.index (.empty none)

/-- Replaces a sink. -/
def setSink (w : Workbench) (id : SinkId) (s : Sink) : Workbench :=
  { w with sinks := w.sinks.set id.index s }

/-- The draft of a solution. -/
def draft (w : Workbench) (d : Desk) : Draft := ⟨d.solution, d.log.map w.sink⟩

/-- Puts the record of a draft back into its sink. -/
def putLog (w : Workbench) (d : Desk) (draft : Draft) : Workbench :=
  match d.log, draft.log with
  | some id, some s => w.setSink id s
  | _, _ => w

/-- Puts a draft back into the register of its solution. -/
def putDraft (w : Workbench) (name : String) (d : Desk) (draft : Draft) : Workbench :=
  let w := w.putLog d draft
  { w with solutions := w.solutions.set name { d with solution := draft.solution } }

/-! ## Terms -/

/-- An expression in a script. -/
inductive Term where
  | constant (value : Double)
  | integer (n : Int)
  | pointIn (register : String)
  | exprIn (register : String)
  /-- A point of the grid in a register. -/
  | pointAt (register : String) (offsets : List Int64)
  | binary (op : Operator) (lhs rhs : Term)

/-! ## Steps -/

/-- A step of a script. `into` names the register that takes the result. -/
inductive Step where
  | dim (into name : String) (kind : DimKind)
  | sameDim (a b : String)
  | sameGrid (a b : String)
  | sameEquation (a b : String)
  | grid (into name : String) (dims : List String)
  | point (into grid : String) (offsets : List Int64)
  | offsetOf (point dim : String)
  | expr (into : String) (term : Term)
  | walk (term : Term)
  | sameExpr (a b : Term)
  | evaluate (term : Term) (absent : Double) (values : List (String × Double))
  | equation (into : String) (lhs rhs : Term)
  | solution (into name : String)
  | declareGrid (solution name : String) (dims : List String) (into : Option String)
  | findGrid (solution name : String) (into : Option String)
  | addEquation (solution equation : String)
  | equate (solution : String) (lhs rhs : Term)
  | getEquation (solution : String) (index : Nat)
  | setElementBytes (solution : String) (bytes : Nat)
  | setLog (solution : String) (output : Option String)
  | state (solution : String)
  | manifest (solution : String)
  | lower (solution : String) (share : Bool)
  | openOutput (into : String) (room : Option Nat)
  | cloneOutput (into output : String)
  | write (output text : String)
  | read (output : String)
  | discard (output : String)
  | registry (into : String) (builtins share : Bool)
  | register (registry id description text : String)
  | lookup (registry id : String)
  | format (solution id : String) (output registry : Option String)

/-- What a step answers. -/
inductive Reply where
  | nothing
  | flag (b : Bool)
  | dim (d : Dim)
  | grid (g : Grid)
  | point (p : Point)
  | offset (o : Option Int64)
  | expr (e : Expr)
  | texts (ts : List String)
  | evaluation (e : Expr.Evaluation)
  | equation (e : Equation)
  | solution (s : Solution)
  | manifest (s : Solution)
  | kernels (ks : List Kernel)
  | text (t : String)
  | rendered (t : String)
  | registry (r : Registry)
  | format (f : Format)

end Workbench

/-! ## Acts -/

/-- A step under way: it reads and changes the workbench, and gives a result or a refusal. -/
abbrev Act (α : Type) := ExceptT Refusal (StateM Workbench) α

/-- Performs an act: its result, and the workbench as the act leaves it, refused or not. -/
def Workbench.perform {α : Type} (w : Workbench) (act : Act α) : Except Refusal α × Workbench :=
  (ExceptT.run act).run w

namespace Act

open Workbench (Term Step Reply)

/-- What a register holds. -/
def fetch {α : Type} (kind : RegisterKind) (registers : Workbench → Registers α) (name : String) :
    Act α := do
  match (registers (← get)).get? name with
  | some a => return a
  | none => throw (.noSuchRegister kind name)

def dim (name : String) : Act Dim := fetch .dim Workbench.dims name
def grid (name : String) : Act Grid := fetch .grid Workbench.grids name
def point (name : String) : Act Point := fetch .point Workbench.points name
def expr (name : String) : Act Expr := fetch .expr Workbench.exprs name
def equation (name : String) : Act Equation := fetch .equation Workbench.equations name
def desk (name : String) : Act Desk := fetch .solution Workbench.solutions name
def output (name : String) : Act SinkId := fetch .output Workbench.outputs name
def registry (name : String) : Act Registry := fetch .registry Workbench.registries name

/-- A result of the model. -/
def lift {α : Type} (r : Except Error α) : Act α := ofExcept (r.mapError .model)

/-- The solution in a register. -/
def solution (name : String) : Act Solution := return (← desk name).solution

/-- A new sink. -/
def openSink (room : Option Nat) : Act SinkId :=
  modifyGet fun w => (⟨w.sinks.length⟩, { w with sinks := w.sinks ++ [.empty room] })

/-- Writes to a sink. -/
def write (id : SinkId) (text : String) : Act Unit := do
  let s ← lift (((← get).sink id).write text)
  modify (·.setSink id s)

/-- **Makes a call on the draft of a solution**, and puts the draft back as the call leaves it. -/
def edit {α : Type} (solution : String) (call : Edit α) : Act α := do
  let d ← desk solution
  let w ← get
  let (result, draft) := (w.draft d).run call
  set (w.putDraft solution d draft)
  lift result

/-- The expression of a term. -/
def value : Term → Act Expr
  | .constant v => return .const v
  | .integer n => return .const (.ofInt n)
  | .pointIn register => return .point (← point register)
  | .exprIn register => expr register
  | .pointAt register offsets => do
    let g ← grid register
    let p ← lift (Point.make g offsets)
    return .point p
  | .binary op lhs rhs => do
    let a ← value lhs
    let b ← value rhs
    return .binary op a b

/-- The point of a term that is to be written. -/
def target (t : Term) : Act Point := do
  match ← value t with
  | .point p => return p
  | _ => throw .notAPoint

/-- Renders a solution into a sink, if one is given, and answers with the sink's text, or with that
    of the rendering. -/
def render (solution id : String) (output : Option SinkId) (registry : Registry) : Act Reply := do
  let text ← edit solution (.render registry id)
  match output with
  | none => return .rendered text
  | some sink =>
    write sink text
    return .rendered ((← get).sink sink).text

/-- **What a step does.** -/
def ofStep : Step → Act Reply
  | .dim into name kind => do
    modify fun w => { w with dims := w.dims.set into ⟨name, kind⟩ }
    return .dim ⟨name, kind⟩
  | .sameDim a b => return .flag ((← dim a) == (← dim b))
  | .sameGrid a b => return .flag ((← grid a) == (← grid b))
  | .sameEquation a b => return .flag ((← equation a).agrees (← equation b))
  | .grid into name dims => do
    let ds ← dims.mapM dim
    let g ← lift (Grid.make name ds)
    modify fun w => { w with grids := w.grids.set into g }
    return .grid g
  | .point into register offsets => do
    let g ← grid register
    let p ← lift (Point.make g offsets)
    modify fun w => { w with points := w.points.set into p }
    return .point p
  | .offsetOf register dim => return .offset ((← point register).offsetOf? dim)
  | .expr into term => do
    let e ← value term
    modify fun w => { w with exprs := w.exprs.set into e }
    return .expr e
  | .walk term => return .texts ((← value term).subtrees.map Expr.text)
  | .sameExpr a b => return .flag ((← value a).agrees (← value b))
  | .evaluate term absent values => do
    let e ← value term
    return .evaluation (e.evaluate fun p => (values.lookup p.text).getD absent)
  | .equation into lhs rhs => do
    let l ← target lhs
    let r ← value rhs
    let e ← lift (Equation.make l r)
    modify fun w => { w with equations := w.equations.set into e }
    return .equation e
  | .solution into name => do
    modify fun w => { w with solutions := w.solutions.set into ⟨.new name, none⟩ }
    return .solution (.new name)
  | .declareGrid solution name dims into => do
    let ds ← dims.mapM dim
    let g ← edit solution (.declareGrid name ds)
    modify fun w => { w with grids := w.grids.setSome into g }
    return .grid g
  | .findGrid register name into => do
    match (← solution register).grid? name with
    | some g =>
      modify fun w => { w with grids := w.grids.setSome into g }
      return .grid g
    | none => return .nothing
  | .addEquation solution register => do
    let e ← equation register
    edit solution (.addEquation e)
    return .nothing
  | .equate solution lhs rhs => do
    let l ← target lhs
    let r ← value rhs
    return .equation (← edit solution (.equate l r))
  | .getEquation register index => do
    let s ← solution register
    return .equation (← lift (s.equation index))
  | .setElementBytes solution bytes => do
    edit solution (.setElementBytes bytes)
    return .nothing
  | .setLog solution register => do
    let log ← register.mapM output
    let d ← desk solution
    modify fun w => { w with solutions := w.solutions.set solution { d with log := log } }
    return .nothing
  | .state register => return .solution (← solution register)
  | .manifest register => return .manifest (← solution register)
  | .lower register share => do
    let s ← solution register
    return .kernels (← lift (s.lower share))
  | .openOutput into room => do
    let id ← openSink room
    modify fun w => { w with outputs := w.outputs.set into id }
    return .nothing
  | .cloneOutput into register => do
    let id ← output register
    modify fun w => { w with outputs := w.outputs.set into id }
    return .nothing
  | .write register text => do
    let id ← output register
    write id text
    return .nothing
  | .read register => do
    let id ← output register
    return .text ((← get).sink id).text
  | .discard register => do
    let id ← output register
    modify fun w => w.setSink id (w.sink id).discard
    return .nothing
  | .registry into builtins share => do
    let r := if builtins then Registry.builtin share else Registry.empty
    modify fun w => { w with registries := w.registries.set into r }
    return .registry r
  | .register into id description text => do
    let r ← registry into
    let r ← lift (r.register (.fixed id description text))
    modify fun w => { w with registries := w.registries.set into r }
    return .registry r
  | .lookup register id => do
    let r ← registry register
    return .format (← lift (r.lookup id))
  | .format register id into formats => do
    let _ ← desk register
    let out ← into.mapM output
    let r ← formats.mapM registry
    render register id out (r.getD (.builtin true))

end Act

namespace Workbench

/-- **One step** of a script: its answer, and the workbench as the step leaves it, refused or not. -/
def step (w : Workbench) (s : Step) : Except Refusal Reply × Workbench :=
  w.perform (Act.ofStep s)

/-- A whole script, with one answer a step. -/
def run (w : Workbench) : List Step → List (Except Refusal Reply)
  | [] => []
  | s :: ss =>
    let (reply, w) := w.step s
    reply :: w.run ss

end Workbench

end Stencil
