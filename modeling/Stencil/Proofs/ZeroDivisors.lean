import Mathlib
import Stencil.Proofs.Literals
import Stencil.Proofs.Rendering
import Stencil.Proofs.Session
import Stencil.Proofs.Sharing

/-!
# Divisors of generated code

Code is not generated for an equation that divides by a constant zero. But constants are looked at
as doubles, and become literals of the element type only afterwards. So generated code divides by a
literal zero exactly if elements have four bytes and an equation divides by a constant that is not
zero itself but is rounded to zero (`Solution.code_divides_by_zero_iff`).

A division of the generated code and the literal of its divisor are those of one division of the
equation, since the temporaries of a kernel stand for subtrees (`Equation.tree?_kernel`).
-/

namespace Stencil

/-! ## Divisors of kernels -/

/-- What is made of a result comes from the result. -/
theorem map_eq_ok {α β : Type} {r : Except Error α} {f : α → β} {b : β}
    (h : r.map f = .ok b) : ∃ a, r = .ok a ∧ f a = b := by
  cases r with
  | error e => exact absurd h (by simp [Except.map])
  | ok a =>
    injection h with h
    exact ⟨a, rfl, h⟩

/-- **A kernel operates on a constant where its equation does.** -/
theorem Equation.operates_on_const_iff (e : Equation) (index : Nat) (share : Bool) (op : Operator)
    (v : Double) :
    (∃ dst lhs rhs, ⟨dst, .binary op lhs rhs⟩ ∈ (e.kernel index share).instrs
        ∧ ⟨rhs, .const v⟩ ∈ (e.kernel index share).instrs)
      ↔ ∃ lhs, .binary op lhs (.const v) ∈ e.rhs.subtrees := by
  -- over trees, temporaries hold what they stand for, so that instructions and subtrees correspond
  obtain ⟨env, hruns, _, hsub, _⟩ := e.tree?_kernel index share
  have hnumbered := Lowering.numbered_start.lower share e.rhs
  constructor
  · rintro ⟨dst, l, r, hdiv, hconst⟩
    obtain ⟨t, ht, hdst⟩ := hruns.holds _ hdiv
    obtain ⟨c, hc, hdst'⟩ := hruns.holds _ hconst
    obtain ⟨a, b, _, hr, rfl⟩ := Operation.operands_of_value?_eq ht
    obtain rfl : Expr.const v = c := Option.some.inj hc
    obtain rfl : b = .const v := Option.some.inj (hr.symm.trans hdst')
    exact ⟨a, hsub dst _ hdst⟩
  · rintro ⟨lhs, hmem⟩
    obtain ⟨t, ht⟩ := Lowering.Runs.exists_temp share e.rhs Lowering.runs_start hruns _ hmem
    obtain ⟨o, ho, hvalue⟩ := hruns.exists_instr hnumbered ht
    obtain ⟨l, r, rfl, _, hr⟩ := Operation.exists_of_value?_eq_binary hvalue
    obtain ⟨o', ho', hvalue'⟩ := hruns.exists_instr hnumbered hr
    rw [Operation.eq_const_of_value?_eq hvalue'] at ho'
    exact ⟨t, l, r, ho, ho'⟩

/-- The kernels of a solution are those of its equations. -/
theorem mem_lowerFrom {share : Bool} (es : List Equation) :
    ∀ {index : Nat} {ks : List Kernel}, lowerFrom share index es = .ok ks →
      (∀ k ∈ ks, ∃ e ∈ es, ∃ i, k = e.kernel i share)
        ∧ ∀ e ∈ es, ∃ i, e.kernel i share ∈ ks := by
  induction es with
  | nil =>
    intro index ks h
    obtain rfl : [] = ks := Except.ok.inj h
    exact ⟨List.forall_mem_nil _, List.forall_mem_nil _⟩
  | cons e es ih =>
    intro index ks h
    rw [lowerFrom] at h
    cases hlower : e.lower index share with
    | error err => rw [hlower] at h; cases h
    | ok k =>
      rw [hlower] at h
      obtain ⟨ks', hrest, rfl⟩ := map_eq_ok h
      obtain rfl := Equation.eq_kernel_of_lower hlower
      obtain ⟨hfrom, hof⟩ := ih hrest
      refine ⟨List.forall_mem_cons.mpr ⟨⟨e, List.mem_cons_self, index, rfl⟩, ?_⟩,
        List.forall_mem_cons.mpr ⟨⟨index, List.mem_cons_self⟩, ?_⟩⟩
      · intro k hk
        obtain ⟨e', he', hkernel⟩ := hfrom k hk
        exact ⟨e', List.mem_cons_of_mem _ he', hkernel⟩
      · intro e' he'
        obtain ⟨i, hi⟩ := hof e' he'
        exact ⟨i, List.mem_cons_of_mem _ hi⟩

/-! ## Divisors of generated code -/

namespace Calc

/-- A statement that has a constant or computes. -/
def Stmt.isArithmetic : Stmt → Bool
  | constant _ _ => true
  | compute _ _ _ _ => true
  | _ => false

theorem Plan.load_not_arithmetic (plan : Plan) (dst : Temp) (p : Point) :
    ∀ stmt ∈ plan.load dst p, stmt.isArithmetic = false := by
  unfold Plan.load
  split_ifs
  · cases plan.access p <;> simp [Stmt.isArithmetic]
  · simp [Stmt.isArithmetic]

theorem Plan.store_not_arithmetic (plan : Plan) (p : Point) (src : Temp) :
    ∀ stmt ∈ plan.store p src, stmt.isArithmetic = false := by
  unfold Plan.store
  split_ifs
  · cases plan.access p <;> simp [Stmt.isArithmetic]
  · simp [Stmt.isArithmetic]

/-- The statement of an instruction that has a constant or computes. -/
def arithmetic? (i : Instr) : Option Stmt :=
  match i.operation with
  | .load _ => none
  | .const v => some (.constant i.dst v)
  | .binary op lhs rhs => some (.compute i.dst op lhs rhs)

/-- **The arithmetic of a body is that of its kernel.** -/
theorem Plan.mem_body_iff (plan : Plan) (k : Kernel) {stmt : Stmt}
    (h : stmt.isArithmetic = true) :
    stmt ∈ plan.body k ↔ ∃ i ∈ k.instrs, arithmetic? i = some stmt := by
  rw [Plan.body, List.mem_append, List.mem_flatMap]
  constructor
  · rintro (⟨i, hi, hstmt⟩ | hstmt)
    · refine ⟨i, hi, ?_⟩
      obtain ⟨dst, o⟩ := i
      cases o with
      | load p =>
        rcases List.mem_cons.mp hstmt with rfl | hstmt
        · cases h
        · rw [plan.load_not_arithmetic dst p stmt hstmt] at h
          cases h
      | const v => rw [List.mem_singleton.mp hstmt]; rfl
      | binary op lhs rhs => rw [List.mem_singleton.mp hstmt]; rfl
    · rcases List.mem_cons.mp hstmt with rfl | hstmt
      · cases h
      · rw [plan.store_not_arithmetic _ _ stmt hstmt] at h
        cases h
  · rintro ⟨⟨dst, o⟩, hi, hstmt⟩
    refine Or.inl ⟨_, hi, ?_⟩
    cases o with
    | load p => cases hstmt
    | const v => obtain rfl := Option.some.inj hstmt; exact List.mem_singleton.mpr rfl
    | binary op lhs rhs => obtain rfl := Option.some.inj hstmt; exact List.mem_singleton.mpr rfl

theorem Plan.compute_mem_body_iff (plan : Plan) (k : Kernel) (dst : Temp) (op : Operator)
    (lhs rhs : Temp) :
    .compute dst op lhs rhs ∈ plan.body k ↔ ⟨dst, .binary op lhs rhs⟩ ∈ k.instrs := by
  rw [plan.mem_body_iff k rfl]
  constructor
  · rintro ⟨⟨dst', o⟩, hi, hstmt⟩
    cases o <;> simp [arithmetic?] at hstmt
    obtain ⟨rfl, rfl, rfl, rfl⟩ := hstmt
    exact hi
  · exact fun hi => ⟨_, hi, rfl⟩

theorem Plan.constant_mem_body_iff (plan : Plan) (k : Kernel) (dst : Temp) (v : Double) :
    .constant dst v ∈ plan.body k ↔ ⟨dst, .const v⟩ ∈ k.instrs := by
  rw [plan.mem_body_iff k rfl]
  constructor
  · rintro ⟨⟨dst', o⟩, hi, hstmt⟩
    cases o <;> simp [arithmetic?] at hstmt
    obtain ⟨rfl, rfl⟩ := hstmt
    exact hi
  · exact fun hi => ⟨_, hi, rfl⟩

/-- A division of the body has a temporary as its divisor that is bound to a literal, and the literal
    is read as a zero of the element type. -/
def Plan.DividesByZeroLiteral (plan : Plan) (body : List Stmt) : Prop :=
  ∃ dst lhs rhs v negative, .compute dst .div lhs rhs ∈ body ∧ .constant rhs v ∈ body
    ∧ plan.width.readLiteral? (plan.width.literal v) = some (negative, 0)

/-- A body divides by a literal zero where the equation divides by a constant that is narrowed to
    zero. -/
theorem Plan.dividesByZeroLiteral_iff (plan : Plan) (e : Equation) (index : Nat) (share : Bool) :
    plan.DividesByZeroLiteral (plan.body (e.kernel index share))
      ↔ ∃ lhs v, .binary .div lhs (.const v) ∈ e.rhs.subtrees ∧ plan.width.narrow v = 0 := by
  unfold Plan.DividesByZeroLiteral
  simp only [plan.compute_mem_body_iff, plan.constant_mem_body_iff]
  constructor
  · rintro ⟨dst, l, r, v, negative, hdiv, hconst, hread⟩
    obtain ⟨lhs, hmem⟩ :=
      (e.operates_on_const_iff index share .div v).mp ⟨dst, l, r, hdiv, hconst⟩
    exact ⟨lhs, v, hmem, (plan.width.readLiteral?_literal_eq_zero_iff v).mp ⟨negative, hread⟩⟩
  · rintro ⟨lhs, v, hmem, hzero⟩
    obtain ⟨dst, l, r, hdiv, hconst⟩ :=
      (e.operates_on_const_iff index share .div v).mpr ⟨lhs, hmem⟩
    obtain ⟨negative, hread⟩ := (plan.width.readLiteral?_literal_eq_zero_iff v).mpr hzero
    exact ⟨dst, l, r, v, negative, hdiv, hconst, hread⟩

end Calc

/-- A constant divisor of an equation that has a kernel is not zero. -/
theorem Expr.isZero_eq_false_of_divisor {e lhs : Expr} {v : Double} (h : ¬ e.DividesByZero)
    (hmem : .binary .div lhs (.const v) ∈ e.subtrees) : v.isZero = false := by
  by_contra hzero
  rw [Bool.not_eq_false] at hzero
  exact h ⟨lhs, .const v, hmem, rfl, fun _ => hzero⟩

/-- **When generated code divides by a literal zero.** Where a header is generated, for whatever
    target and with shared values or without, the body of some equation divides by a temporary that
    is bound to a literal zero of the element type exactly if elements have four bytes and some
    equation divides by a constant that is not zero, but not above half the least positive element.
    With elements of eight bytes this never happens. -/
theorem Solution.code_divides_by_zero_iff (s : Solution) (t : Target) (share : Bool) (text : String)
    (h : s.header t share = .ok text) :
    ∃ kernels, s.lower share = .ok kernels ∧ text = unlines (Header.lines s (.of s t) kernels)
      ∧ ((∃ k ∈ kernels, (Calc.Plan.of s t).DividesByZeroLiteral ((Calc.Plan.of s t).body k))
        ↔ s.width = .single ∧ ∃ e ∈ s.equations, ∃ lhs v,
            .binary .div lhs (.const v) ∈ e.rhs.subtrees ∧ v.isZero = false ∧ v.isFinite = true
              ∧ |v.value| ≤ 1 / 2 ^ 150) := by
  obtain ⟨kernels, hlower, rfl⟩ := map_eq_ok h
  refine ⟨kernels, hlower, rfl, ?_⟩
  obtain ⟨hfrom, hof⟩ := mem_lowerFrom s.equations hlower
  have hnone : ∀ e ∈ s.equations, ¬ e.rhs.DividesByZero := by
    rcases s.lower_cases share with ⟨_, text, herror⟩ | ⟨hnot, _⟩
    · rw [hlower] at herror
      cases herror
    · exact fun e he hzero => hnot ⟨e, he, hzero⟩
  -- the bodies and the equations divide by the same constants
  have hbodies : (∃ k ∈ kernels, (Calc.Plan.of s t).DividesByZeroLiteral ((Calc.Plan.of s t).body k))
      ↔ ∃ e ∈ s.equations, ∃ lhs v, .binary .div lhs (.const v) ∈ e.rhs.subtrees
        ∧ s.width.narrow v = 0 := by
    constructor
    · rintro ⟨k, hk, hdivides⟩
      obtain ⟨e, he, index, rfl⟩ := hfrom k hk
      exact ⟨e, he, ((Calc.Plan.of s t).dividesByZeroLiteral_iff e index share).mp hdivides⟩
    · rintro ⟨e, he, hdivides⟩
      obtain ⟨index, hk⟩ := hof e he
      exact ⟨_, hk, ((Calc.Plan.of s t).dividesByZeroLiteral_iff e index share).mpr hdivides⟩
  rw [hbodies]
  constructor
  · rintro ⟨e, he, lhs, v, hmem, hzero⟩
    have hv := Expr.isZero_eq_false_of_divisor (hnone e he) hmem
    cases hwidth : s.width with
    | double =>
      rw [hwidth, Width.narrow_double_eq_zero_iff, hv] at hzero
      cases hzero
    | single =>
      rw [hwidth, Width.narrow_single_eq_zero_iff] at hzero
      exact ⟨rfl, e, he, lhs, v, hmem, hv, hzero⟩
  · rintro ⟨hwidth, e, he, lhs, v, hmem, _, hsmall⟩
    refine ⟨e, he, lhs, v, hmem, ?_⟩
    rw [hwidth]
    exact (Width.narrow_single_eq_zero_iff v).mpr hsmall

/-- `salt(tick+1, col) EQUALS (salt(tick, col) / 1e-60)`. -/
def Equation.tinyDivisor : Equation :=
  let salt : Grid := ⟨"salt", [⟨"tick", .step⟩, ⟨"col", .domain⟩], by decide⟩
  ⟨⟨salt, [1, 0], by decide⟩,
    .binary .div (.point ⟨salt, [0, 0], by decide⟩) (.const ⟨0x3379b604aaaca626⟩), by decide⟩

/-- A session that adds the equation, with elements of the given bytes. -/
def Call.tinyDivisor (bytes : Nat) : List Call :=
  [.declareGrid "salt" [⟨"tick", .step⟩, ⟨"col", .domain⟩], .addEquation .tinyDivisor,
    .setElementBytes bytes]

theorem Solution.lower_tinyDivisor {s : Solution} (h : s.equations = [.tinyDivisor]) (share : Bool) :
    s.lower share = .ok [Equation.tinyDivisor.kernel 0 share] := by
  rw [Solution.lower, h, lowerFrom, Equation.lower_eq_kernel (by decide) 0 share]
  rfl

/-- With elements of eight bytes the divisor is not zero. -/
theorem Solution.code_divides_by_zero_iff_eightBytes :
    let s := ((Draft.new "thin" none).after (Call.tinyDivisor 8)).solution
    ∃ text kernels, s.header .avx2 true = .ok text ∧ s.lower true = .ok kernels
      ∧ ¬ ∃ k ∈ kernels, (Calc.Plan.of s .avx2).DividesByZeroLiteral
          ((Calc.Plan.of s .avx2).body k) := by
  intro s
  have hlower := Solution.lower_tinyDivisor (s := s) (by decide) true
  have hheader : s.header .avx2 true = .ok _ := congrArg (Except.map _) hlower
  obtain ⟨kernels, hkernels, _, hdivides⟩ := s.code_divides_by_zero_iff .avx2 true _ hheader
  refine ⟨_, kernels, hheader, hkernels, ?_⟩
  rw [hdivides]
  rintro ⟨hwidth, _⟩
  exact absurd hwidth (by decide)

/-- **Code that divides by a literal zero.** With elements of four bytes the divisor is written as
    `0.0f`. -/
theorem Solution.code_divides_by_zero_tiny :
    let s := ((Draft.new "thin" none).after (Call.tinyDivisor 4)).solution
    ∃ text kernels, s.header .cpp true = .ok text ∧ s.lower true = .ok kernels
      ∧ ∃ k ∈ kernels, (Calc.Plan.of s .cpp).DividesByZeroLiteral
          ((Calc.Plan.of s .cpp).body k) := by
  intro s
  have hlower := Solution.lower_tinyDivisor (s := s) (by decide) true
  have hheader : s.header .cpp true = .ok _ := congrArg (Except.map _) hlower
  refine ⟨_, _, hheader, hlower, _, List.mem_singleton.mpr rfl, ?_⟩
  rw [Calc.Plan.dividesByZeroLiteral_iff]
  have hwidth : s.width = .single := by decide
  refine ⟨_, _, List.mem_cons_self, ?_⟩
  show s.width.narrow _ = 0
  rw [hwidth]
  decide +kernel

end Stencil
