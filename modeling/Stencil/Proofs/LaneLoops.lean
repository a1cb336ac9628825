import Mathlib
import Stencil.Proofs.NameCapture

/-!
# When vector code agrees with scalar code

One call of a vector function is meant to leave the storage that calls of the scalar function leave,
as many as there are lanes, each one element further along the innermost domain dimension. What the
two functions write is known (`Calc.Plan.calc_eq`, `Calc.Plan.sweep_eq`), and differs in one thing:
the vector function writes and reads cells as its code reaches them.

So the two agree where code reaches the cells of points, which it does unless a loop over the lanes
hides a dimension called `lane`. Nothing keeps a dimension from having that name. If one does, and a
grid that has it is reached lane by lane, there are values of the dimensions and a storage that tell
the two functions apart: a cell that is reached by mistake has the lane where the cell of the point
has the dimension, which may be as far away as one likes (`Calc.reached_ne_cell`). The condition is
therefore exact (`Draft.vector_calc_eq_scalar_sweep_iff`).

To see which cells a function reads, values are taken to be sets of cells, a constant the empty set
and an operation the union (`Interpretation.reads`): the value of a tree is then what was read for
it.
-/

namespace Stencil

universe u

open Code

/-! ## Values as the cells they are made of -/

/-- An operation is made of what its operands are made of. -/
def Interpretation.reads : Interpretation (ULift.{u} (Set Calc.Cell)) where
  const _ := ⟨∅⟩
  op _ a b := ⟨a.down ∪ b.down⟩

/-- A tree is made of the cells that its points are read at. -/
theorem Expr.mem_value_reads (cell : Point → Calc.Cell) (c : Calc.Cell) (e : Expr) :
    c ∈ (e.value Interpretation.reads.{u} fun p => ⟨{cell p}⟩).down
      ↔ ∃ p ∈ e.points, cell p = c := by
  induction e with
  | const v => simp [Expr.value, Interpretation.reads, Expr.points]
  | point p => simp [Expr.value, Expr.points, eq_comm]
  | binary op lhs rhs ihl ihr =>
    show c ∈ _ ∪ _ ↔ ∃ p ∈ lhs.points ++ rhs.points, cell p = c
    rw [Set.mem_union, ihl, ihr]
    simp only [List.mem_append, or_and_right, exists_or]

/-! ## Cells that are reached by mistake -/

/-- Where two points of one grid have one cell, every dimension of the grid is worth the same for
    both, up to their offsets. -/
theorem Point.eq_of_cell_eq {p q : Point} (hgrid : q.grid = p.grid) {env env' : String → Int}
    (h : p.cell env = q.cell env') {name : String} (hname : name ∈ p.grid.dimNames) :
    ∃ o o' : Int64, env name + o.toInt = env' name + o'.toInt := by
  obtain ⟨i, hi⟩ := List.mem_iff_getElem?.mp hname
  have hp : (p.indices.map (·.1.name))[i]? = some name := by rwa [p.map_name_indices]
  have hq : (q.indices.map (·.1.name))[i]? = some name := by rwa [q.map_name_indices, hgrid]
  obtain ⟨⟨d, o⟩, hget, hd⟩ := Option.map_eq_some_iff.mp (List.getElem?_map ▸ hp)
  obtain ⟨⟨d', o'⟩, hget', hd'⟩ := Option.map_eq_some_iff.mp (List.getElem?_map ▸ hq)
  have hindices := congrArg (·[i]?) (congrArg Calc.Cell.indices h)
  simp only [Point.cell, List.getElem?_map, hget, hget', Option.map_some, Option.some.injEq]
    at hindices
  refine ⟨o, o', ?_⟩
  rw [← hd, hindices, ← hd'.trans hd.symm]

namespace Calc

/-- Values of the dimensions at which a dimension called `lane` is worth more than any lane, whatever
    offsets are added to the two. -/
def farLane (count : Nat) (dim : String) : Int :=
  if dim = "lane" then 18446744073709551616 + 2 * count else 0

variable {plan : Plan} {p : Point}

/-- **A dimension that a loop hides**: the cell that is reached is no cell of a point of the grid,
    neither at this element nor at another. -/
theorem reached_ne_cell (hstrided : plan.isStrided p = true) (hlane : "lane" ∈ p.grid.dimNames)
    {q : Point} (hgrid : q.grid.name = p.grid.name → q.grid = p.grid) {count i : Nat}
    (hi : i < count) (j : Nat) :
    plan.reached p (farLane count) i ≠ q.cell (along plan.vectorDim (farLane count) j) := by
  intro heq
  have hname : q.grid.name = p.grid.name := (congrArg Cell.grid heq).symm
  rw [Plan.reached, hstrided, if_pos rfl] at heq
  obtain ⟨o, o', hvalue⟩ := Point.eq_of_cell_eq (hgrid hname) heq hlane
  have hnear : inLoop (farLane count) i "lane" = i := Function.update_self ..
  have hfar : farLane count "lane" = 18446744073709551616 + 2 * count := if_pos rfl
  have hbounds := And.intro o.toInt_lt o'.le_toInt
  -- a lane may be added on either side, and twice if `lane` is also the dimension that code goes along
  simp only [along, hnear, hfar] at hvalue
  split_ifs at hvalue <;> omega

/-- The last lane is never overwritten, for no lane is stored after it. -/
theorem writeLanes_last {V : Type u} {last : Nat} (cell : Nat → Cell) (v : Nat → V)
    (storage : Cell → V) : writeLanes (last + 1) cell v storage (cell last) = v last := by
  rw [writeLanes_succ, Function.update_self]

end Calc

/-! ## The condition -/

variable {s : Solution} {t : Target} {e : Equation}

namespace Solution.Valid

/-- Grids of one name that an equation has points of are one grid. -/
theorem grid_eq (h : s.Valid) (he : e ∈ s.equations) {p q : Point} (hp : p ∈ e.points)
    (hq : q ∈ e.points) (hname : q.grid.name = p.grid.name) : q.grid = p.grid := by
  have hlookup := (h.points e he p hp).1
  have hlookup' := (h.points e he q hq).1
  rw [hname, hlookup] at hlookup'
  exact (Option.some.inj hlookup').symm

/-- **No loop hides a dimension if the functions agree**: they are told apart at `farLane` by what
    the last lane leaves, when values are the cells that they are made of. -/
theorem not_mem_of_agree (h : s.Valid) (he : e ∈ s.equations) {count : Nat} (hcount : count ≠ 0)
    {plan : Calc.Plan} (hdim : plan.vectorDim = s.innermost?)
    (hagree : ∀ here (storage : Calc.Cell → ULift.{u} (Set Calc.Cell)),
      Calc.writeLanes count (plan.reached e.lhs here)
          (fun j => e.rhs.value .reads fun p => storage (plan.reached p here j)) storage
        = Calc.writeLanes count (fun j => e.lhs.cell (Calc.along s.innermost? here j))
            (fun j => e.rhs.value .reads fun p => storage (p.cell (Calc.along s.innermost? here j)))
            storage)
    {p : Point} (hp : p ∈ e.points) (hstrided : plan.isStrided p = true) :
    "lane" ∉ p.grid.dimNames := by
  obtain ⟨last, rfl⟩ := Nat.exists_eq_add_one_of_ne_zero hcount
  set here := Calc.farLane (last + 1)
  set element := Calc.along s.innermost? here last
  have hmissed : ∀ p ∈ e.points, plan.isStrided p = true → "lane" ∈ p.grid.dimNames →
      ∀ q ∈ e.points, ∀ i < last + 1, plan.reached p here i ≠ q.cell element := by
    intro p hp hstrided hlane q hq i hi
    have hne := Calc.reached_ne_cell hstrided hlane (h.grid_eq he hp hq) hi last
    rwa [hdim] at hne
  have hlast := congrArg ULift.down (congrFun (hagree here fun c => ⟨{c}⟩) (e.lhs.cell element))
  rw [Calc.writeLanes_last fun j => e.lhs.cell (Calc.along s.innermost? here j)] at hlast
  have hlhs : plan.isStrided e.lhs = true → "lane" ∉ e.lhs.grid.dimNames := by
    intro hstrided hlane
    -- vector code leaves the cell alone: it is made of itself, and the equation does not read it
    rw [Calc.writeLanes_of_ne (hmissed _ List.mem_cons_self hstrided hlane _ List.mem_cons_self)]
      at hlast
    obtain ⟨q, hq, hcell⟩ := (Expr.mem_value_reads _ _ _).mp ((Set.ext_iff.mp hlast _).mp rfl)
    exact h.cell_ne he hq here last last hcell.symm
  intro hlane
  rcases List.mem_cons.mp hp with rfl | hrhs
  · exact hlhs hstrided hlane
  · -- vector code writes the cell, but from one that is none of the right-hand side's
    have hwritten : plan.reached e.lhs here last = e.lhs.cell element := by
      rw [Calc.reached_eq_cell hlhs, hdim]
    rw [← hwritten, Calc.writeLanes_last] at hlast
    have hread := (Expr.mem_value_reads (fun p => plan.reached p here last) _ e.rhs).mpr
      ⟨p, hrhs, rfl⟩
    obtain ⟨q, hq, hcell⟩ := (Expr.mem_value_reads _ _ _).mp ((Set.ext_iff.mp hlast _).mp hread)
    exact hmissed p hp hstrided hlane q (List.mem_cons_of_mem _ hq) last (Nat.lt_succ_self _)
      hcell.symm

/-- **What vector and scalar code write is the same exactly if no loop hides a dimension.** -/
theorem writes_agree_iff (h : s.Valid) (he : e ∈ s.equations) {count : Nat} (hcount : count ≠ 0)
    {plan : Calc.Plan} (hdim : plan.vectorDim = s.innermost?) :
    (∀ (V : Type u) (I : Interpretation V) here (storage : Calc.Cell → V),
        Calc.writeLanes count (plan.reached e.lhs here)
            (fun j => e.rhs.value I fun p => storage (plan.reached p here j)) storage
          = Calc.writeLanes count (fun j => e.lhs.cell (Calc.along s.innermost? here j))
              (fun j => e.rhs.value I fun p => storage (p.cell (Calc.along s.innermost? here j)))
              storage)
      ↔ ∀ p ∈ e.points, plan.isStrided p = true → "lane" ∉ p.grid.dimNames := by
  constructor
  · intro hagree p hp hstrided
    exact h.not_mem_of_agree he hcount hdim (hagree _ .reads) hp hstrided
  · intro hfree V I here storage
    have hreached : ∀ p ∈ e.points, ∀ j,
        plan.reached p here j = p.cell (Calc.along s.innermost? here j) := by
      intro p hp j
      rw [Calc.reached_eq_cell (hfree p hp), hdim]
    have hcells : plan.reached e.lhs here = fun j => e.lhs.cell (Calc.along s.innermost? here j) :=
      funext (hreached e.lhs List.mem_cons_self)
    have hvalues : ∀ j, e.rhs.value I (fun p => storage (plan.reached p here j))
        = e.rhs.value I fun p => storage (p.cell (Calc.along s.innermost? here j)) := by
      intro j
      apply Expr.value_congr
      intro p hp
      rw [hreached p (List.mem_cons_of_mem _ hp)]
    rw [hcells, funext hvalues]

end Solution.Valid

/-- The text of an address, read as arithmetic, is worth what the machine makes of the address. -/
theorem Calc.Plan.element?_eq_cell (plan : Calc.Plan) (p : Point) (lane : Bool)
    (env : String → Int) :
    element? env (plan.address p lane).text
      = some (["grids", ".", p.grid.name], ((plan.address p lane).cell env).indices) := by
  rw [plan.element?_address]
  simp only [Calc.Plan.address, Calc.Address.cell, List.map_map]
  congr 2
  refine List.map_congr_left ?_
  rintro ⟨d, o⟩ _
  simp only [Function.comp_apply, Calc.AddressIndex.eval, Bool.and_eq_true, beq_iff_eq]
  omega

/-- **Vector code agrees with scalar code exactly where no loop hides a dimension.** In every
    solution that a session leaves, for every vector target and every kernel of an equation of it:

    * an address of the function is worth, as text, what it is worth to the machine;
    * in every domain of values, and from every storage, no call gets stuck. A call of the vector
      function gives the cells that it reaches for the left-hand side the values of the right-hand
      side at the cells that it reaches for its points. As many calls of the scalar function as there
      are lanes, each one element further along the innermost domain dimension, give the cells of the
      left-hand side the values of the right-hand side at the cells of its points;
    * the two leave the same storage, in every domain and from every storage, if and only if no grid
      that is reached lane by lane has a dimension called `lane`. -/
theorem Draft.vector_calc_eq_scalar_sweep_iff (name : String) (log : Option Sink)
    (calls : List Call) {t : Target} (ht : t ∈ Target.all) (hvector : t.isVector = true)
    {e : Equation} (he : e ∈ ((Draft.new name log).after calls).solution.equations) {index : Nat}
    {share : Bool} {k : Kernel} (hk : e.lower index share = .ok k) :
    let s := ((Draft.new name log).after calls).solution
    let plan := Calc.Plan.of s t
    let scalar := Calc.Plan.of s .cpp
    let count := t.lanes s.width.bytes
    let dim := s.domainDims.getLast?.map Dim.name
    (∀ a ∈ (plan.body k).filterMap Calc.Stmt.address?, ∀ env,
        element? env a.text = some (["grids", ".", a.grid], (a.cell env).indices))
      ∧ (∀ (V : Type u) (I : Interpretation V) (here : String → Int) (storage : Calc.Cell → V),
          plan.calc I k here storage
              = some (Calc.writeLanes count (plan.reached e.lhs here)
                  (fun j => e.rhs.value I fun p => storage (plan.reached p here j)) storage)
            ∧ scalar.sweep I k dim here count storage
              = some (Calc.writeLanes count (fun j => e.lhs.cell (Calc.along dim here j))
                  (fun j => e.rhs.value I fun p => storage (p.cell (Calc.along dim here j)))
                  storage))
      ∧ ((∀ (V : Type u) (I : Interpretation V) (here : String → Int) (storage : Calc.Cell → V),
            plan.calc I k here storage = scalar.sweep I k dim here count storage)
          ↔ ∀ p ∈ e.points, plan.isStrided p = true → "lane" ∉ p.grid.dimNames) := by
  intro s plan scalar count dim
  have hvalid : s.Valid := Draft.valid_after name log calls
  have hdim : plan.vectorDim = s.innermost? := by
    simp [plan, Calc.Plan.of, hvector, Solution.innermost?]
  rw [Equation.eq_kernel_of_lower hk]
  have hcalc := fun (V : Type u) (I : Interpretation V) here storage =>
    Calc.Plan.calc_eq I here (Calc.Plan.sound_of s ht) e index share storage
  have hsweep := fun (V : Type u) (I : Interpretation V) here storage =>
    Calc.Plan.sweep_eq I count here (Calc.Plan.sound_of s (t := .cpp) (by decide)) rfl e index share
      (fun i j p hp => hvalid.cell_ne he hp here i j) storage
  refine ⟨?_, fun V I here storage => ⟨hcalc V I here storage, hsweep V I here storage⟩, ?_⟩
  · intro a ha env
    rw [plan.address?_kernel e index share] at ha
    obtain ⟨p, _, rfl⟩ := List.mem_map.mp ha
    exact plan.element?_eq_cell p _ env
  · refine Iff.trans ?_ (hvalid.writes_agree_iff he (Target.lanes_pos ht s.width).ne' hdim)
    refine forall₄_congr fun V I here storage => ?_
    exact (Eq.congr (hcalc V I here storage) (hsweep V I here storage)).trans Option.some_inj

/-- `u(t+1, x, y) EQUALS ((v(t, y+1, x) * c(x)) + u(t, x, y-1))`. Along `y`, the elements of `u` are
    rows, those of `v` lie apart, and `c` has one. -/
def Equation.threeGrids : Equation :=
  let u : Grid := ⟨"u", [⟨"t", .step⟩, ⟨"x", .domain⟩, ⟨"y", .domain⟩], by decide⟩
  let v : Grid := ⟨"v", [⟨"t", .step⟩, ⟨"y", .domain⟩, ⟨"x", .domain⟩], by decide⟩
  let c : Grid := ⟨"c", [⟨"x", .domain⟩], by decide⟩
  let product : Expr := .binary .mul (.point ⟨v, [0, 1, 0], rfl⟩) (.point ⟨c, [0], rfl⟩)
  ⟨⟨u, [1, 0, 0], rfl⟩, .binary .add product (.point ⟨u, [0, 0, -1], rfl⟩), by decide⟩

/-- A session that declares the three grids and adds the equation. -/
def Call.threeGrids : List Call :=
  [.declareGrid "u" [⟨"t", .step⟩, ⟨"x", .domain⟩, ⟨"y", .domain⟩],
    .declareGrid "v" [⟨"t", .step⟩, ⟨"y", .domain⟩, ⟨"x", .domain⟩],
    .declareGrid "c" [⟨"x", .domain⟩], .addEquation .threeGrids]

/-- All three ways to reach a grid, with a loop that hides nothing. -/
theorem Draft.vector_calc_eq_scalar_sweep_iff_threeGrids :
    let s := ((Draft.new "flow" none).after Call.threeGrids).solution
    let plan := Calc.Plan.of s .avx512
    Equation.threeGrids ∈ s.equations ∧ ∃ k, Equation.threeGrids.lower 0 true = .ok k
      ∧ Equation.threeGrids.points.map plan.access
        = [.contiguous, .strided, .broadcast, .contiguous]
      ∧ ∀ (here : String → Int) (storage : Calc.Cell → Double),
        plan.calc .double k here storage
          = (Calc.Plan.of s .cpp).sweep .double k (some "y") here 16 storage := by
  intro s plan
  have hmem : Equation.threeGrids ∈ s.equations := by decide
  have hlower := Equation.lower_eq_kernel (e := .threeGrids) (by decide) 0 true
  obtain ⟨_, _, hiff⟩ := Draft.vector_calc_eq_scalar_sweep_iff "flow" none Call.threeGrids
    (t := .avx512) (by decide) (by decide) hmem hlower
  exact ⟨hmem, _, hlower, by decide, hiff.mpr (by decide) Double .double⟩

/-- **Where they differ.** A domain dimension is called `lane`, and along `pos` the elements of
    `mass` are reached lane by lane. Called where `lane` is 100, with all elements 1 and every
    operation an addition, scalar code leaves 2 at `mass(1, 0, 100)`. Vector code leaves that cell
    alone, and leaves 2 at `mass(1, 0, 0)`. -/
theorem Draft.vector_calc_ne_scalar_sweep :
    let s := ((Draft.new "road" none).after Call.laneDim).solution
    let I : Interpretation Nat := ⟨fun _ => 0, fun _ a b => a + b⟩
    let here : String → Int := fun d => if d = "lane" then 100 else 0
    Equation.laneDim ∈ s.equations ∧ ∃ k vector scalar, Equation.laneDim.lower 0 true = .ok k
      ∧ (Calc.Plan.of s .avx2).calc I k here (fun _ => 1) = some vector
      ∧ (Calc.Plan.of s .cpp).sweep I k (some "pos") here 8 (fun _ => 1) = some scalar
      ∧ (vector ⟨"mass", [1, 0, 100]⟩ = 1 ∧ scalar ⟨"mass", [1, 0, 100]⟩ = 2)
      ∧ (vector ⟨"mass", [1, 0, 0]⟩ = 2 ∧ scalar ⟨"mass", [1, 0, 0]⟩ = 1) := by
  intro s I here
  have hmem : Equation.laneDim ∈ s.equations := by decide
  have hvalid : s.Valid := Draft.valid_after "road" none Call.laneDim
  have hlower := Equation.lower_eq_kernel (e := .laneDim) (by decide) 0 true
  have hvector := Calc.Plan.calc_eq I here (Calc.Plan.sound_of s (t := .avx2) (by decide))
    .laneDim 0 true fun _ => 1
  have hscalar := Calc.Plan.sweep_eq I 8 here (Calc.Plan.sound_of s (t := .cpp) (by decide)) rfl
    .laneDim 0 true (fun i j p hp => hvalid.cell_ne hmem hp here i j) fun _ => 1
  refine ⟨hmem, _, _, _, hlower, hvector, hscalar, ?_, ?_⟩
  · decide
  · decide

end Stencil
