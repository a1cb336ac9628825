import Mathlib
import Stencil.Proofs.Lowering
import Stencil.Proofs.Machine
import Stencil.Proofs.Validity

/-!
# What generated functions do

Vector code computes all lanes at once and reaches the elements of a grid in one of three ways:
as a row, as one element for all lanes, or element by element in a loop. Whichever it is, the
function of a kernel writes the values of its right-hand side to the cells of its left-hand side, a
lane at a time, and all values are those from before the call (`Calc.Plan.calc_eq`). Scalar code is
an instance of this statement: it has one lane and goes along no dimension.

The cell that a lane of a point is reached at (`Calc.Plan.reached`) is the point's cell, as far
along the vector dimension as the lane. The exception is a point that is reached in a loop and has a
dimension called `lane`: there the counter stands in the place of the dimension.

Scalar code, called at one element after the other, reads what it has just written. It computes the
same values all the same (`Calc.Plan.sweep_eq`), because an equation of a valid solution never
writes a cell that it reads, at whatever element: its left-hand side is at a later step than every
point of its own grid, and the dimension that code goes along is not the step
(`Solution.Valid.cell_ne`).
-/

namespace Stencil

universe u

variable {V : Type u}

/-! ## Values a lane -/

/-- Registers as values: the interpretation in each lane. -/
def Interpretation.lanes (I : Interpretation V) : Interpretation (Nat → V) where
  const bits := fun _ => I.const bits
  op o a b := fun j => I.op o (a j) (b j)

theorem Expr.value_lanes (I : Interpretation V) (read : Point → Nat → V) (j : Nat) (e : Expr) :
    e.value I.lanes read j = e.value I (fun p => read p j) := by
  induction e with
  | const v => rfl
  | point p => rfl
  | binary op lhs rhs ihl ihr =>
    show I.op op (lhs.value I.lanes read j) (rhs.value I.lanes read j) = _
    rw [ihl, ihr]
    rfl

/-- The value of a tree depends on its points only. -/
theorem Expr.value_congr (I : Interpretation V) {read read' : Point → V} {e : Expr}
    (h : ∀ p ∈ e.points, read p = read' p) : e.value I read = e.value I read' := by
  induction e with
  | const v => rfl
  | point p => exact h p (List.mem_singleton.mpr rfl)
  | binary op lhs rhs ihl ihr =>
    rw [Expr.value, Expr.value, ihl fun p hp => h p (List.mem_append_left _ hp),
      ihr fun p hp => h p (List.mem_append_right _ hp)]

/-! ## Cells of points -/

/-- The cell of a point, where the dimensions have the given values. -/
def Point.cell (p : Point) (here : String → Int) : Calc.Cell :=
  ⟨p.grid.name, p.indices.map fun (d, offset) => here d.name + offset.toInt⟩

theorem Point.map_fst_indices (p : Point) : p.indices.map Prod.fst = p.grid.dims :=
  List.map_fst_zip (by rw [p.sound])

theorem Point.map_name_indices (p : Point) : p.indices.map (·.1.name) = p.grid.dimNames := by
  rw [Grid.dimNames, ← p.map_fst_indices, List.map_map]
  rfl

namespace Calc

variable {plan : Plan}

theorem along_none (here : String → Int) (j : Nat) : along none here j = here := by
  funext d
  simp [along]

/-- A point's cell depends on what its own dimensions are worth. -/
theorem cell_congr {p : Point} {env env' : String → Int}
    (h : ∀ d ∈ p.grid.dimNames, env d = env' d) : p.cell env = p.cell env' := by
  unfold Point.cell
  congr 1
  refine List.map_congr_left ?_
  rintro ⟨d, offset⟩ hd
  have hname : d.name ∈ p.grid.dimNames := by
    rw [← p.map_name_indices]
    exact List.mem_map_of_mem hd
  show env d.name + offset.toInt = env' d.name + offset.toInt
  rw [h d.name hname]

/-- The address of a point is its cell. -/
theorem cell_address (plan : Plan) (p : Point) (env : String → Int) :
    (plan.address p false).cell env = p.cell env := by
  simp [Plan.address, Address.cell, AddressIndex.eval, Point.cell]

/-- In a loop, the address of a lane of a point is its cell further along. -/
theorem cell_address_lane (plan : Plan) (p : Point) (here : String → Int) (j : Nat) :
    (plan.address p true).cell (inLoop here j)
      = p.cell (along plan.vectorDim (inLoop here j) j) := by
  have hlane : inLoop here j "lane" = j := Function.update_self ..
  simp only [Plan.address, Address.cell, Point.cell, List.map_map, Bool.true_and]
  congr 1
  refine List.map_congr_left ?_
  rintro ⟨d, offset⟩ _
  simp only [Function.comp_apply, AddressIndex.eval, along, beq_iff_eq, hlane]
  split_ifs <;> simp

/-- A point whose grid lacks the dimension has one cell. -/
theorem cell_along_of_not_mem {p : Point} {dim : Option String}
    (h : ∀ d ∈ p.grid.dimNames, some d ≠ dim) (here : String → Int) (j : Nat) :
    p.cell (along dim here j) = p.cell here := by
  apply cell_congr
  intro d hd
  exact if_neg (h d hd)

/-- Among indices of distinct dimensions, going along the last dimension moves the last index. -/
theorem shiftLast_map {dim : String} (here : String → Int) (j : Nat) :
    ∀ ixs : List (Dim × Int64), (ixs.map (·.1.name)).Nodup →
      (ixs.map (·.1.name)).getLast? = some dim →
      shiftLast j (ixs.map fun (d, offset) => here d.name + offset.toInt)
        = ixs.map fun (d, offset) => along (some dim) here j d.name + offset.toInt
  | [], _, _ => rfl
  | [(d, offset)], _, hlast => by
    have hd : d.name = dim := by simpa using hlast
    simp only [List.map_cons, List.map_nil, shiftLast, along, hd, if_true]
    congr 1
    omega
  | (d, offset) :: ix :: ixs, hnodup, hlast => by
    rw [List.map_cons, List.nodup_cons] at hnodup
    have hlast' : ((ix :: ixs).map (·.1.name)).getLast? = some dim := by simpa using hlast
    have hne : d.name ≠ dim := by
      intro he
      exact hnodup.1 (he ▸ List.mem_of_mem_getLast? hlast')
    -- only the last index is along the lanes, and names do not repeat
    have hstay : along (some dim) here j d.name = here d.name := by simp [along, hne]
    show (here d.name + offset.toInt) :: shiftLast j ((ix :: ixs).map _)
      = (along (some dim) here j d.name + offset.toInt) :: (ix :: ixs).map _
    rw [hstay, shiftLast_map here j (ix :: ixs) hnodup.2 hlast']

/-! ## How vector code reaches a point -/

/-- Contiguous elements: the row from a point on has its cells further along. -/
theorem past_of_contiguous {p : Point} (h : plan.access p = .contiguous) (here : String → Int)
    (j : Nat) : (p.cell here).past j = p.cell (along plan.vectorDim here j) := by
  unfold Plan.access at h
  cases hdim : plan.vectorDim with
  | none => rw [hdim] at h; exact absurd h (by simp)
  | some dim =>
    rw [hdim] at h
    cases hidx : p.grid.dimNames.idxOf? dim with
    | none => simp only [hidx] at h; exact absurd h (by simp)
    | some i =>
      simp only [hidx] at h
      split_ifs at h with hlen
      have hlast : (p.indices.map (·.1.name)).getLast? = some dim := by
        obtain ⟨hi, hget, _⟩ := List.idxOf?_eq_some_iff.mp hidx
        have hlength : p.grid.dimNames.length = i + 1 := by
          rw [hlen, Grid.dimNames, List.length_map]
        rw [p.map_name_indices, List.getLast?_eq_getElem?, hlength]
        exact List.getElem?_eq_some_iff.mpr ⟨hi, hget⟩
      have hnodup : (p.indices.map (·.1.name)).Nodup := by
        rw [p.map_name_indices]
        exact p.grid.shape.distinct
      unfold Cell.past Point.cell
      rw [shiftLast_map here j p.indices hnodup hlast]

/-- One element for all lanes: the point has one cell. -/
theorem cell_of_broadcast {p : Point} (h : plan.access p = .broadcast) (here : String → Int)
    (j : Nat) : p.cell (along plan.vectorDim here j) = p.cell here := by
  refine cell_along_of_not_mem ?_ here j
  unfold Plan.access at h
  cases hdim : plan.vectorDim with
  | none => simp
  | some dim =>
    rw [hdim] at h
    cases hidx : p.grid.dimNames.idxOf? dim with
    | none =>
      intro d hd he
      injection he with he
      subst he
      exact List.idxOf?_eq_none_iff.mp hidx hd
    | some i =>
      simp only [hidx] at h
      split_ifs at h

/-- The point is read or written lane by lane. -/
def Plan.isStrided (plan : Plan) (p : Point) : Bool :=
  plan.target.isVector && plan.access p == .strided

/-- **The cell that code reaches** for a lane of a point. Where it goes lane by lane it does so in a
    loop, in which a dimension called `lane` is worth the lane. -/
def Plan.reached (plan : Plan) (p : Point) (here : String → Int) (j : Nat) : Cell :=
  p.cell (along plan.vectorDim (if plan.isStrided p then inLoop here j else here) j)

theorem reached_of_not_strided {p : Point} (h : plan.isStrided p = false) (here : String → Int)
    (j : Nat) : plan.reached p here j = p.cell (along plan.vectorDim here j) := by
  rw [Plan.reached, h]
  rfl

/-- As a row, the cells are consecutive: each lane is one further along the last dimension. -/
theorem reached_of_contiguous {p : Point} (h : plan.access p = .contiguous)
    (here : String → Int) : plan.reached p here = (p.cell here).past := by
  funext j
  rw [reached_of_not_strided (by simp [Plan.isStrided, h]), past_of_contiguous h]

/-- As one element, it is the same cell in every lane. -/
theorem reached_of_broadcast {p : Point} (h : plan.access p = .broadcast) (here : String → Int) :
    plan.reached p here = fun _ => p.cell here := by
  funext j
  rw [reached_of_not_strided (by simp [Plan.isStrided, h]), cell_of_broadcast h]

/-- Lane by lane, the cells are those of the address as the loop evaluates it. -/
theorem reached_of_strided {p : Point} (hvector : plan.target.isVector = true)
    (h : plan.access p = .strided) (here : String → Int) :
    plan.reached p here = fun j => (plan.address p true).cell (inLoop here j) := by
  have hstrided : plan.isStrided p = true := by simp [Plan.isStrided, hvector, h]
  funext j
  rw [Plan.reached, hstrided, cell_address_lane]
  rfl

/-- The cell that is reached is the point's, unless the loop hides one of its dimensions. -/
theorem reached_eq_cell {p : Point}
    (h : plan.isStrided p = true → "lane" ∉ p.grid.dimNames) (here : String → Int) (j : Nat) :
    plan.reached p here j = p.cell (along plan.vectorDim here j) := by
  cases hstrided : plan.isStrided p with
  | false => exact reached_of_not_strided hstrided here j
  | true =>
    rw [Plan.reached, hstrided, if_pos rfl]
    apply cell_congr
    intro d hd
    have hne : d ≠ "lane" := fun he => h hstrided (he ▸ hd)
    have hsame : inLoop here j d = here d := Function.update_of_ne hne _ _
    simp only [along, hsame]

/-! ## What a lane writes -/

theorem writeLanes_succ (n : Nat) (cell : Nat → Cell) (v : Nat → V) (storage : Cell → V) :
    writeLanes (n + 1) cell v storage
      = Function.update (writeLanes n cell v storage) (cell n) (v n) := by
  simp only [writeLanes, List.range_succ, List.foldl_append, List.foldl_cons, List.foldl_nil]

/-- Where no lane writes, storage stays as it is. -/
theorem writeLanes_of_ne {n : Nat} {cell : Nat → Cell} {v : Nat → V} {storage : Cell → V}
    {c : Cell} (h : ∀ j < n, cell j ≠ c) : writeLanes n cell v storage c = storage c := by
  induction n with
  | zero => rfl
  | succ n ih =>
    rw [writeLanes_succ, Function.update_of_ne (h n (Nat.lt_succ_self n)).symm]
    exact ih fun j hj => h j (Nat.lt_succ_of_lt hj)

/-- Where all lanes write one cell, the last one wins. -/
theorem writeLanes_const (n : Nat) (c : Cell) (v : Nat → V) (storage : Cell → V) :
    writeLanes (n + 1) (fun _ => c) v storage = Function.update storage c (v n) := by
  induction n with
  | zero => rfl
  | succ n ih => rw [writeLanes_succ, ih, Function.update_idem]

/-! ## What the statements of a plan do -/

variable (I : Interpretation V) (n : Nat) (here : String → Int)

/-- Scalar code goes along no dimension, and there is a lane to be computed. -/
structure Plan.Sound (plan : Plan) : Prop where
  scalar : plan.target.isVector = false → plan.vectorDim = none
  lanes_pos : 0 < plan.target.lanes plan.width.bytes

/-- Scalar code has neither lanes nor loops: it reaches the cell of a point. -/
theorem Plan.Sound.reached_eq (hplan : plan.Sound) (hscalar : plan.target.isVector = false)
    (p : Point) : plan.reached p here = fun _ => p.cell here := by
  funext j
  rw [reached_of_not_strided (by simp [Plan.isStrided, hscalar]), hplan.scalar hscalar, along_none]

/-- The value that code finds for a point in every lane. -/
def Plan.laneReader (plan : Plan) (storage : Cell → V) (here : String → Int) (p : Point) :
    Nat → V :=
  fun j => storage (plan.reached p here j)

/-- **A load** gives a register the value that is found for the point in every lane, however it is
    reached. -/
theorem execute_load (hplan : plan.Sound) (dst : Temp) (p : Point) (m : Machine V) :
    ∃ m', execute I n here (plan.load dst p) m = some m' ∧ m'.storage = m.storage
      ∧ m'.temps
        = Function.update m.temps dst (some (plan.laneReader m.storage here p)) := by
  unfold Plan.load Plan.laneReader
  cases hvector : plan.target.isVector with
  | false =>
    refine ⟨_, rfl, rfl, ?_⟩
    rw [hplan.reached_eq here hvector, ← cell_address plan p here]
    rfl
  | true =>
    cases haccess : plan.access p with
    | contiguous =>
      refine ⟨_, rfl, rfl, ?_⟩
      rw [reached_of_contiguous haccess, ← cell_address plan p here]
      rfl
    | broadcast =>
      refine ⟨_, rfl, rfl, ?_⟩
      rw [reached_of_broadcast haccess, ← cell_address plan p here]
      rfl
    | strided =>
      rw [reached_of_strided hvector haccess]
      -- the array goes from declared to filled, and the register is made of it
      simp only [if_true, execute, Stmt.step, Machine.setLanes, Function.update_self,
        Option.bind_some, Function.update_idem]
      exact ⟨_, rfl, rfl, rfl⟩

/-- **One instruction** gives its register the value of the operation in every lane. -/
theorem execute_instr (hplan : plan.Sound) {i : Instr} {m : Machine V} {v : Nat → V}
    (hv : i.operation.value? I.lanes (plan.laneReader m.storage here) m.temps = some v) :
    ∃ m', execute I n here (plan.instr i) m = some m' ∧ m'.storage = m.storage
      ∧ m'.temps = Function.update m.temps i.dst (some v) := by
  unfold Plan.instr
  cases hop : i.operation with
  | load p =>
    rw [hop] at hv
    injection hv with hv
    subst hv
    exact execute_load I n here hplan i.dst p m
  | const c =>
    rw [hop] at hv
    injection hv with hv
    subst hv
    exact ⟨_, rfl, rfl, rfl⟩
  | binary op lhs rhs =>
    rw [hop, Operation.value?] at hv
    cases hl : m.temps lhs with
    | none => rw [hl] at hv; exact absurd hv (by simp)
    | some a =>
      cases hr : m.temps rhs with
      | none => rw [hl, hr] at hv; exact absurd hv (by simp)
      | some b =>
        rw [hl, hr] at hv
        injection hv with hv
        subst hv
        simp only [execute, Stmt.step, hl, hr, Option.bind_some]
        exact ⟨_, rfl, rfl, rfl⟩

/-- **A run of instructions** leaves in the registers what the instructions leave in the
    temporaries, lane by lane, and writes nothing. -/
theorem execute_instrs (hplan : plan.Sound) (instrs : List Instr) :
    ∀ {m : Machine V} {env},
      I.lanes.execute (plan.laneReader m.storage here) instrs m.temps = some env →
      ∃ m', execute I n here (instrs.flatMap plan.instr) m = some m' ∧ m'.storage = m.storage
        ∧ m'.temps = env := by
  induction instrs with
  | nil =>
    intro m env h
    injection h with h
    exact ⟨m, rfl, rfl, h⟩
  | cons i is ih =>
    intro m env h
    rw [Interpretation.execute] at h
    cases hv : i.operation.value? I.lanes (plan.laneReader m.storage here) m.temps with
    | none => rw [hv] at h; exact absurd h (by simp)
    | some v =>
      rw [hv] at h
      obtain ⟨m₁, hrun₁, hstorage₁, htemps₁⟩ :=
        execute_instr I n here hplan hv
      rw [← hstorage₁] at h
      simp only [← htemps₁] at h
      obtain ⟨m₂, hrun₂, hstorage₂, htemps₂⟩ := ih h
      refine ⟨m₂, ?_, hstorage₂.trans hstorage₁, htemps₂⟩
      rw [List.flatMap_cons, execute_append, hrun₁]
      exact hrun₂

/-- **A store** writes the register to the cells that are reached, a lane at a time. -/
theorem execute_store (hplan : plan.Sound) {src : Temp} {p : Point} {m : Machine V} {v : Nat → V}
    (hv : m.temps src = some v) :
    ∃ m', execute I (plan.target.lanes plan.width.bytes) here (plan.store p src) m = some m'
      ∧ m'.storage = writeLanes (plan.target.lanes plan.width.bytes) (plan.reached p here) v
          m.storage := by
  unfold Plan.store
  cases hvector : plan.target.isVector with
  | false =>
    have hone : plan.target.lanes plan.width.bytes = 1 := by simp [Target.lanes, hvector]
    simp only [execute, Stmt.step, hv, Option.bind_some, Bool.false_eq_true, if_false]
    refine ⟨_, rfl, ?_⟩
    rw [hone, hplan.reached_eq here hvector, writeLanes_const 0, cell_address]
  | true =>
    cases haccess : plan.access p with
    | contiguous =>
      simp only [execute, Stmt.step, hv, Option.bind_some, if_true]
      refine ⟨_, rfl, ?_⟩
      rw [reached_of_contiguous haccess, cell_address]
    | broadcast =>
      simp only [execute, Stmt.step, hv, Option.bind_some, if_true]
      refine ⟨_, rfl, ?_⟩
      -- all lanes share the cell, so storing the last one is storing them all in order
      obtain ⟨last, hlast⟩ := Nat.exists_eq_succ_of_ne_zero hplan.lanes_pos.ne'
      rw [reached_of_broadcast haccess, hlast, writeLanes_const, cell_address]
      rfl
    | strided =>
      simp only [execute, Stmt.step, hv, Option.bind_some, if_true]
      refine ⟨_, rfl, ?_⟩
      rw [reached_of_strided hvector haccess]

/-! ## Kernels -/

/-- **What the function of a kernel does**, scalar or vector: it writes the values of the right-hand
    side to the cells of the left-hand side, a lane at a time, as its code reaches them. All values
    are those from before the call. -/
theorem Plan.calc_eq (hplan : plan.Sound) (e : Equation) (index : Nat) (share : Bool)
    (storage : Cell → V) :
    plan.calc I (e.kernel index share) here storage
      = some (writeLanes (plan.target.lanes plan.width.bytes) (plan.reached e.lhs here)
          (fun j => e.rhs.value I fun p => storage (plan.reached p here j)) storage) := by
  -- registers are values too: the kernel computes its right-hand side in the domain of lanes
  obtain ⟨env, hrun, hresult⟩ :=
    e.execute_kernel index share I.lanes (plan.laneReader storage here)
  obtain ⟨m₁, hrun₁, hstorage₁, htemps₁⟩ := execute_instrs I
    (plan.target.lanes plan.width.bytes) here hplan _ (m := .start storage) hrun
  obtain ⟨m₂, hrun₂, hstorage₂⟩ := execute_store I here hplan (p := e.lhs)
    ((congrFun htemps₁ _).trans hresult)
  have hbody : execute I (plan.target.lanes plan.width.bytes) here
      (plan.body (e.kernel index share)) (.start storage) = some m₂ := by
    rw [Plan.body, execute_append, hrun₁]
    exact hrun₂
  have hvalues : e.rhs.value I.lanes (plan.laneReader storage here)
      = fun j => e.rhs.value I fun p => storage (plan.reached p here j) := by
    funext j
    exact e.rhs.value_lanes I _ j
  rw [Plan.calc, hbody, Option.map_some, hstorage₂, hstorage₁, hvalues]
  rfl

/-- **Calls at one element after the other** write what the elements' right-hand sides were worth
    before the first call, if no element's cell is read at a later one. -/
theorem Plan.sweep_eq (hplan : plan.Sound) (hscalar : plan.target.isVector = false)
    (e : Equation) (index : Nat) (share : Bool) {dim : Option String}
    (hne : ∀ i j, ∀ p ∈ e.rhs.points, e.lhs.cell (along dim here i) ≠ p.cell (along dim here j))
    (storage : Cell → V) :
    plan.sweep I (e.kernel index share) dim here n storage
      = some (writeLanes n (fun j => e.lhs.cell (along dim here j))
          (fun j => e.rhs.value I fun p => storage (p.cell (along dim here j))) storage) := by
  have hone : plan.target.lanes plan.width.bytes = 1 := by simp [Target.lanes, hscalar]
  induction n with
  | zero => rfl
  | succ n ih =>
    rw [Plan.sweep, List.range_succ, List.foldlM_append, ← Plan.sweep, ih, writeLanes_succ]
    show (plan.calc I (e.kernel index share) (along dim here n) _).bind some = _
    rw [Plan.calc_eq I _ hplan, hone, Option.bind_some]
    simp only [hplan.reached_eq _ hscalar]
    rw [writeLanes_const 0]
    -- the cells that are read now are none of those written so far
    rw [Expr.value_congr I fun p hp => writeLanes_of_ne fun j _ => hne j n p hp]

end Calc

/-! ## Cells that are written and cells that are read -/

/-- The step offset is the first one. -/
theorem Point.indices_of_stepOffset? {p : Point} {o : Int64} (h : p.stepOffset? = some o) :
    ∃ d ixs, p.indices = (d, o) :: ixs ∧ d.isStep = true ∧ p.grid.dims.head? = some d := by
  have hfst := p.map_fst_indices
  unfold Point.stepOffset? at h
  cases hix : p.indices with
  | nil => rw [hix] at h; exact absurd h (by simp)
  | cons ix ixs =>
    obtain ⟨d, o'⟩ := ix
    rw [hix] at h
    simp only at h
    split_ifs at h with hstep
    injection h with h
    subst h
    rw [hix] at hfst
    exact ⟨d, ixs, rfl, hstep, by rw [← hfst]; rfl⟩

/-- Points of one grid at different steps are different cells, wherever the step dimension has one
    value. -/
theorem Point.cell_ne {p q : Point} {l r : Int64} (hgrid : q.grid = p.grid)
    (hp : p.stepOffset? = some l) (hq : q.stepOffset? = some r) (hne : l.toInt ≠ r.toInt)
    {here here' : String → Int}
    (hhere : ∀ d ∈ p.grid.dims, d.isStep = true → here d.name = here' d.name) :
    p.cell here ≠ q.cell here' := by
  obtain ⟨d, ixs, hix, hstep, hhead⟩ := Point.indices_of_stepOffset? hp
  obtain ⟨d', ixs', hix', _, hhead'⟩ := Point.indices_of_stepOffset? hq
  have hdd : d = d' := by
    rw [hgrid, hhead] at hhead'
    exact Option.some.inj hhead'
  subst hdd
  have hd := hhere d (List.mem_of_mem_head? hhead) hstep
  intro heq
  have hcons := congrArg Calc.Cell.indices heq
  simp only [Point.cell, hix, hix', List.map_cons] at hcons
  injection hcons with hfirst _
  omega

/-- The innermost domain dimension, along which vector code goes. -/
def Solution.innermost? (s : Solution) : Option String := s.domainDims.getLast?.map Dim.name

namespace Solution

variable {s : Solution}

/-- No grid has the innermost domain dimension as its step. -/
theorem Valid.step_ne_innermost (h : s.Valid) {g : Grid} (hg : g ∈ s.grids) {d : Dim}
    (hd : d ∈ g.dims) (hstep : d.isStep = true) : some d.name ≠ s.innermost? := by
  intro heq
  obtain ⟨d', hlast, hname⟩ := Option.map_eq_some_iff.mp heq.symm
  have hmem : d' ∈ s.domainDims := List.mem_of_mem_getLast? hlast
  obtain ⟨htable, hdomain⟩ := List.mem_filter.mp hmem
  obtain ⟨g', hg', hd'⟩ := h.mem_dims.mp htable
  have hkind := h.kinds g' hg' g hg d' hd' d hd hname
  rw [Dim.isStep, hkind, ← Dim.isStep, hstep] at hdomain
  exact absurd hdomain (by simp)

/-- **An equation never writes a cell that it reads**, at whatever elements along the innermost
    dimension it is applied. -/
theorem Valid.cell_ne (h : s.Valid) {e : Equation} (he : e ∈ s.equations) {p : Point}
    (hp : p ∈ e.rhs.points) (here : String → Int) (i j : Nat) :
    e.lhs.cell (Calc.along s.innermost? here i) ≠ p.cell (Calc.along s.innermost? here j) := by
  have hlhs := (h.points e he e.lhs List.mem_cons_self).1
  have hrhs := (h.points e he p (List.mem_cons_of_mem _ hp)).1
  intro heq
  have hname : e.lhs.grid.name = p.grid.name := congrArg Calc.Cell.grid heq
  have hgrid : p.grid = e.lhs.grid := by
    rw [hname, hrhs] at hlhs
    exact Option.some.inj hlhs
  -- one grid, so both points have a step offset, and the one that is read is earlier
  obtain ⟨l, hl, hlater⟩ := (h.causal e he).2
  obtain ⟨r, hr⟩ : ∃ r, p.stepOffset? = some r := by
    rw [Point.stepOffset?_isSome_iff, hgrid, ← Point.stepOffset?_isSome_iff]
    exact ⟨l, hl⟩
  have hlt := hlater p hp r hr
  refine Point.cell_ne hgrid hl hr (by omega) ?_ heq
  intro d hd hstep
  have hmem := ((h.lookup _ _).mp hlhs).1
  have hother := h.step_ne_innermost hmem hd hstep
  simp [Calc.along, hother]

end Solution

/-! ## Vector and scalar code -/

/-- Every target has a lane, for elements of either width. -/
theorem Target.lanes_pos {t : Target} (ht : t ∈ Target.all) (w : Width) : 0 < t.lanes w.bytes := by
  have hall : ∀ t ∈ Target.all, 0 < t.lanes 4 ∧ 0 < t.lanes 8 := by decide
  cases w with
  | single => exact (hall t ht).1
  | double => exact (hall t ht).2

theorem Calc.Plan.sound_of (s : Solution) {t : Target} (ht : t ∈ Target.all) :
    (Calc.Plan.of s t).Sound where
  scalar := fun h => by
    have h : t.isVector = false := h
    simp [Calc.Plan.of, h]
  lanes_pos := Target.lanes_pos ht s.width

end Stencil
