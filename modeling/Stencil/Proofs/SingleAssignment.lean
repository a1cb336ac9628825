import Mathlib
import Stencil.Proofs.Lowering

/-!
# Kernels are in single assignment order, without dead code

The instructions of a kernel define `temp0`, `temp1`, … in this order, each from earlier ones, the
last of them defines the result, and every other one is read by a later one
(`Equation.lower_singleAssignment`).

Three facts about lowering carry this.

* Code that is numbered in order and runs without reading an undefined temporary reads earlier ones
  only (`index_lt_of_execute`).
* What lowering a tree adds is the instruction of its root, or is read (`live_lower`).
* The root of a whole equation is never shared (`lower_eq_append`). Sharing gives a temporary to
  trees of the same size only: the size of a tree is its value under an interpretation
  (`Interpretation.size`), and an instruction that is found for the root would hold a value that is
  larger than all values so far.
-/

namespace Stencil

/-- The temporaries that an operation reads. -/
def Operation.operands : Operation → List Temp
  | load _ => []
  | const _ => []
  | binary _ lhs rhs => [lhs, rhs]

universe u

variable {V : Type u} {I : Interpretation V} {read : Point → V}

/-! ## Earlier temporaries -/

/-- An operation that has a value reads temporaries that have one. -/
theorem Operation.isSome_of_mem_operands {o : Operation} {env : Temp → Option V} {v : V} {t : Temp}
    (hv : o.value? I read env = some v) (ht : t ∈ o.operands) : (env t).isSome = true := by
  cases o with
  | load p => exact absurd ht List.not_mem_nil
  | const c => exact absurd ht List.not_mem_nil
  | binary op lhs rhs =>
    rw [Operation.value?] at hv
    have hmem : t = lhs ∨ t = rhs := by simpa [Operation.operands] using ht
    cases hl : env lhs with
    | none => rw [hl] at hv; exact absurd hv (by simp)
    | some a =>
      cases hr : env rhs with
      | none => rw [hl, hr] at hv; exact absurd hv (by simp)
      | some b =>
        rcases hmem with rfl | rfl
        · rw [hl]; rfl
        · rw [hr]; rfl

/-- **Code that is numbered in order and runs to its end reads earlier temporaries only.** -/
theorem index_lt_of_execute (is : List Instr) :
    ∀ (n : Nat) (env : Temp → Option V),
      is.map Instr.dst = (List.range' n is.length).map Temp.mk →
      (∀ t : Temp, n ≤ t.index → env t = none) → (I.execute read is env).isSome = true →
      ∀ i ∈ is, ∀ t ∈ i.operation.operands, t.index < i.dst.index := by
  induction is with
  | nil => intro n env _ _ _ i hi; exact absurd hi List.not_mem_nil
  | cons i is ih =>
    intro n env hnumbered hfresh hrun
    rw [List.map_cons, List.length_cons, List.range'_succ, List.map_cons, List.cons.injEq]
      at hnumbered
    obtain ⟨hdst, hrest⟩ := hnumbered
    rw [Interpretation.execute] at hrun
    cases hv : i.operation.value? I read env with
    | none => rw [hv] at hrun; exact absurd hrun (by simp)
    | some v =>
      rw [hv] at hrun
      have hfirst : ∀ t ∈ i.operation.operands, t.index < i.dst.index := by
        intro t ht
        have hsome := Operation.isSome_of_mem_operands hv ht
        rw [hdst]
        by_contra hle
        rw [hfresh t (not_lt.mp hle)] at hsome
        exact absurd hsome (by simp)
      -- the temporaries from the next one on are still undefined
      have hfresh' : ∀ t : Temp, n + 1 ≤ t.index →
          Function.update env i.dst (some v) t = none := by
        intro t ht
        have hne : t ≠ i.dst := by
          rw [hdst]
          rintro rfl
          exact absurd ht (Nat.not_succ_le_self n)
        rw [Function.update_of_ne hne]
        exact hfresh t (Nat.le_of_succ_le ht)
      intro j hj
      rcases List.mem_cons.mp hj with rfl | hj
      · exact hfirst
      · exact ih (n + 1) _ hrest hfresh' hrun j hj

/-! ## Sizes -/

/-- The interpretation in which a tree is worth its number of nodes. -/
def Interpretation.size : Interpretation Nat := ⟨fun _ => 1, fun _ a b => 1 + a + b⟩

theorem Expr.value_size (e : Expr) : e.value .size (fun _ => 1) = e.size := by
  induction e with
  | const v => rfl
  | point p => rfl
  | binary op lhs rhs ihl ihr =>
    rw [Expr.value, ihl, ihr]
    rfl

theorem Expr.size_le_of_mem_subtrees {e s : Expr} (h : s ∈ e.subtrees) : s.size ≤ e.size := by
  induction e with
  | const v => rw [List.mem_singleton.mp h]
  | point p => rw [List.mem_singleton.mp h]
  | binary op lhs rhs ihl ihr =>
    have hsize : (Expr.binary op lhs rhs).size = 1 + lhs.size + rhs.size := rfl
    rcases List.mem_cons.mp h with rfl | h
    · exact Nat.le_refl _
    · rcases List.mem_append.mp h with h | h
      · have hl := ihl h
        omega
      · have hr := ihr h
        omega

namespace Lowering

/-! ## The root is not shared -/

/-- An operation without an instruction gets one. -/
theorem emit_eq_append {l : Lowering} {o : Operation} (h : ∀ t, ⟨t, o⟩ ∉ l.instrs) (share : Bool) :
    l.emit share o = l.append o := by
  rcases emit_cases l share o with ⟨t, _, hmem⟩ | he
  · exact absurd hmem (h t)
  · exact he

/-- The operands of a root do not compute the root. -/
theorem root_not_mem (share : Bool) (op : Operator) (lhs rhs : Expr) (t : Temp) :
    let left := lower share lhs start
    let right := lower share rhs left.2
    ⟨t, .binary op left.1 right.1⟩ ∉ right.2.instrs := by
  intro left right hmem
  obtain ⟨env₁, h₁, _, hleft, hvalues₁⟩ := (runs_start : Runs .size (fun _ => 1) start noTemps).lower
    share lhs
  obtain ⟨env₂, h₂, hext, hright, hvalues₂⟩ := h₁.lower share rhs
  rw [Expr.value_size] at hleft hright
  -- the instruction that was found holds the size of the root
  obtain ⟨n, hn, ht⟩ := h₂.holds _ hmem
  have hroot : n = 1 + lhs.size + rhs.size := by
    have hoperation : (Operation.binary op left.1 right.1).value? .size (fun _ => 1) env₂
        = some (1 + lhs.size + rhs.size) := by
      rw [Operation.value?, hext left.1 lhs.size hleft, show env₂ right.1 = _ from hright]
      rfl
    exact Option.some.inj (hn.symm.trans hoperation)
  -- but all values so far are sizes of trees below the root
  rcases hvalues₂ t n ht with ht | ⟨s, hs, hsize⟩
  · rcases hvalues₁ t n ht with ht | ⟨s, hs, hsize⟩
    · exact absurd ht (by simp [noTemps])
    · have hle := Expr.size_le_of_mem_subtrees hs
      rw [Expr.value_size] at hsize
      omega
  · have hle := Expr.size_le_of_mem_subtrees hs
    rw [Expr.value_size] at hsize
    omega

/-- **The root of a tree has an instruction of its own, the last one.** -/
theorem lower_eq_append (share : Bool) (e : Expr) :
    ∃ l o, lower share e start = append l o := by
  cases e with
  | const v => exact ⟨start, .const v, emit_eq_append (fun _ => List.not_mem_nil) share⟩
  | point p => exact ⟨start, .load p, emit_eq_append (fun _ => List.not_mem_nil) true⟩
  | binary op lhs rhs =>
    exact ⟨_, _, emit_eq_append (fun t => root_not_mem share op lhs rhs t) share⟩

/-! ## What is read -/

/-- An instruction reads the temporary. -/
def Reads (l : Lowering) (t : Temp) : Prop := ∃ i ∈ l.instrs, t ∈ i.operation.operands

theorem Reads.emit {l : Lowering} {t : Temp} (h : l.Reads t) (share : Bool) (o : Operation) :
    (l.emit share o).2.Reads t := by
  obtain ⟨i, hi, ht⟩ := h
  exact ⟨i, emit_induct mem_instrs_append hi share o, ht⟩

theorem Reads.lower {l : Lowering} {t : Temp} (h : l.Reads t) (share : Bool) (e : Expr) :
    (Lowering.lower share e l).2.Reads t := by
  obtain ⟨i, hi, ht⟩ := h
  exact ⟨i, lower_induct mem_instrs_append share e hi, ht⟩

/-- The operands of an operation are read once it is emitted. -/
theorem reads_emit (l : Lowering) (share : Bool) {o : Operation} {t : Temp} (h : t ∈ o.operands) :
    (l.emit share o).2.Reads t := by
  obtain ⟨s, hs⟩ := mem_instrs_emit l share o
  exact ⟨_, hs, h⟩

/-- What an emission adds is the instruction of the temporary that it gives. -/
theorem mem_emit {l : Lowering} {share : Bool} {o : Operation} {i : Instr}
    (h : i ∈ (l.emit share o).2.instrs) : i ∈ l.instrs ∨ i.dst = (l.emit share o).1 := by
  rcases emit_cases l share o with ⟨t, he, _⟩ | he
  · rw [he] at h
    exact Or.inl h
  · rw [he] at h ⊢
    rcases List.mem_append.mp h with h | h
    · exact Or.inl h
    · rw [List.mem_singleton.mp h]
      exact Or.inr rfl

/-- **What lowering a tree adds is the instruction of its root, or is read.** -/
theorem live_lower (share : Bool) (e : Expr) :
    ∀ {l : Lowering} {i : Instr}, i ∈ (lower share e l).2.instrs →
      i ∈ l.instrs ∨ i.dst = (lower share e l).1 ∨ (lower share e l).2.Reads i.dst := by
  induction e with
  | const v => intro l i hi; exact (mem_emit hi).imp_right Or.inl
  | point p => intro l i hi; exact (mem_emit hi).imp_right Or.inl
  | binary op lhs rhs ihl ihr =>
    intro l i hi
    rcases mem_emit hi with hi | hroot
    · rcases ihr hi with hi | hright | hread
      · rcases ihl hi with hi | hleft | hread
        · exact Or.inl hi
        · -- the operation reads the root of its left operand
          rw [hleft]
          exact Or.inr (Or.inr (reads_emit _ share (by simp [Operation.operands])))
        · exact Or.inr (Or.inr ((hread.lower share rhs).emit share _))
      · rw [hright]
        exact Or.inr (Or.inr (reads_emit _ share (by simp [Operation.operands])))
      · exact Or.inr (Or.inr (hread.emit share _))
    · exact Or.inr (Or.inl hroot)

/-! ## Positions -/

/-- The instruction at a position defines the temporary of that number. -/
theorem Numbered.dst_eq {l : Lowering} (h : Numbered l) {n : Nat} {i : Instr}
    (hi : l.instrs[n]? = some i) : i.dst = ⟨n⟩ := by
  have hlength : l.instrs.length = l.supply.temps := by
    simpa using congrArg List.length h
  have hn : n < l.supply.temps := hlength ▸ (List.getElem?_eq_some_iff.mp hi).1
  have hat : (l.instrs.map Instr.dst)[n]? = ((List.range l.supply.temps).map Temp.mk)[n]? := by
    rw [h]
  simpa [hi, hn] using hat

/-- Numbered instructions in the form in which they are executed. -/
theorem Numbered.range' {l : Lowering} (h : Numbered l) :
    l.instrs.map Instr.dst = (List.range' 0 l.instrs.length).map Temp.mk := by
  have hlength : l.instrs.length = l.supply.temps := by
    simpa using congrArg List.length h
  rw [hlength, ← List.range_eq_range']
  exact h

end Lowering

/-! ## Kernels -/

namespace Equation

/-- **Kernels are in single assignment order, without dead code.** This holds of every equation that
    has a kernel, with shared values and without.

    There is an instruction. The instruction at position `n` defines the temporary `n`, and reads
    temporaries of smaller numbers only. The last one defines the result, and the temporary of every
    other one is read at a later position. There are at most as many temporaries as nodes, so that a
    32-bit counter numbers them if there are fewer than `2 ^ 32` nodes. -/
theorem lower_singleAssignment (e : Equation) (index : Nat) (share : Bool) (k : Kernel)
    (h : e.lower index share = .ok k) :
    k.instrs ≠ []
      ∧ (∀ (n : Nat) (i : Instr), k.instrs[n]? = some i → i.dst = ⟨n⟩)
      ∧ (∀ i ∈ k.instrs, ∀ t ∈ i.operation.operands, t.index < i.dst.index)
      ∧ k.instrs.getLast?.map Instr.dst = some k.result
      ∧ (∀ n, n + 1 < k.instrs.length →
          ∃ (m : Nat) (i : Instr), n < m ∧ k.instrs[m]? = some i ∧ ⟨n⟩ ∈ i.operation.operands)
      ∧ (∀ i ∈ k.instrs, i.dst.index < e.rhs.size) := by
  obtain rfl := eq_kernel_of_lower h
  set l := Lowering.lower share e.rhs .start with hl
  have hnumbered : Lowering.Numbered l.2 := Lowering.numbered_start.lower share e.rhs
  -- the code runs under every interpretation, and one is enough to see what it reads
  have hearlier : ∀ i ∈ l.2.instrs, ∀ t ∈ i.operation.operands, t.index < i.dst.index := by
    obtain ⟨env, hruns, _⟩ := e.execute_kernel index share .size (fun _ => 1)
    have hruns : (Interpretation.size.execute (fun _ => 1) l.2.instrs noTemps).isSome = true := by
      rw [show Interpretation.size.execute _ l.2.instrs noTemps = some env from hruns]
      rfl
    exact index_lt_of_execute l.2.instrs 0 noTemps hnumbered.range' (fun _ _ => rfl) hruns
  obtain ⟨l', o, hroot⟩ := Lowering.lower_eq_append share e.rhs
  have hinstrs : l.2.instrs = l'.instrs ++ [⟨l.1, o⟩] := by
    rw [hl, hroot]
    rfl
  have hlast : l.1 = ⟨l'.instrs.length⟩ :=
    hnumbered.dst_eq (i := ⟨l.1, o⟩) (by rw [hinstrs]; simp)
  refine ⟨?_, fun n i hi => hnumbered.dst_eq hi, hearlier, ?_, ?_, ?_⟩
  · show l.2.instrs ≠ []
    rw [hinstrs]
    exact List.concat_ne_nil _ _
  · show l.2.instrs.getLast?.map Instr.dst = some l.1
    rw [hinstrs, List.getLast?_concat]
    rfl
  · show ∀ n, n + 1 < l.2.instrs.length → _
    intro n hn
    have hi : l.2.instrs[n]? = some l.2.instrs[n] := List.getElem?_eq_getElem _
    have hdst := hnumbered.dst_eq hi
    have hne : l.2.instrs[n].dst ≠ l.1 := by
      rw [hdst, hlast]
      intro heq
      have hindex : n = l'.instrs.length := congrArg Temp.index heq
      rw [hinstrs, List.length_append, List.length_singleton] at hn
      omega
    rcases Lowering.live_lower share e.rhs (l := .start) (List.getElem_mem _) with hstart | hresult | hread
    · exact absurd hstart List.not_mem_nil
    · exact absurd hresult hne
    · obtain ⟨j, hj, ht⟩ := hread
      obtain ⟨m, hm⟩ := List.mem_iff_getElem?.mp hj
      have hlt := hearlier j hj _ ht
      rw [hdst, hnumbered.dst_eq hm] at hlt
      rw [hdst] at ht
      exact ⟨m, j, hlt, hm, ht⟩
  · intro i hi
    have hlt := hnumbered.index_lt hi
    have hle : l.2.supply.temps ≤ 0 + e.rhs.size := Lowering.temps_lower_le share e.rhs .start
    omega

/-- `pressure(s+1) EQUALS ((pressure(s) * pressure(s)) - (pressure(s) * pressure(s)))`: the product
    can be shared, and so can the loads under it. -/
def sameSquares : Equation :=
  let pressure : Grid := ⟨"pressure", [⟨"s", .step⟩], by decide⟩
  let now : Expr := .point ⟨pressure, [0], by decide⟩
  let square : Expr := .binary .mul now now
  ⟨⟨pressure, [1], by decide⟩, .binary .sub square square, by decide⟩

/-- With sharing there is one product, which the root reads twice; without, there are two. -/
theorem lower_singleAssignment_sameSquares :
    ∃ k k', sameSquares.lower 0 true = .ok k ∧ sameSquares.lower 0 false = .ok k'
      ∧ k.instrs.length = 3 ∧ k'.instrs.length = 4
      ∧ k.instrs.getLast?.map Instr.dst = some k.result
      ∧ k'.instrs.getLast?.map Instr.dst = some k'.result
      ∧ (∃ (m : Nat) (i : Instr), 1 < m ∧ k.instrs[m]? = some i ∧ ⟨1⟩ ∈ i.operation.operands) := by
  have hdiv : sameSquares.rhs.zeroDivision? = none := by decide
  have hshared := lower_eq_kernel hdiv 0 true
  have hplain := lower_eq_kernel hdiv 0 false
  obtain ⟨_, _, _, hlast, hlive, _⟩ := lower_singleAssignment sameSquares 0 true _ hshared
  obtain ⟨_, _, _, hlast', _, _⟩ := lower_singleAssignment sameSquares 0 false _ hplain
  exact ⟨_, _, hshared, hplain, by decide, by decide, hlast, hlast', hlive 1 (by decide)⟩

end Equation

end Stencil
