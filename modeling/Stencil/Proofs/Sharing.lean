import Mathlib
import Stencil.Proofs.SingleAssignment

/-!
# Sharing merges equal subtrees, and nothing else

An instruction is found again by its operation, and the operation of a node names temporaries, not
trees. That equal temporaries are equal trees is not looked at anywhere; it is an invariant.

To say it, code is executed on **trees** (`Interpretation.tree`): constants and points stand for
leaves and operators for nodes, so that a temporary has the tree as its value that it computes.
Lowering then gives a tree a temporary that has that very tree (`Runs.lower`), and with sharing no
tree is in two temporaries (`Runs.distinct_lower`): if the operation of a new instruction computed
a tree that is there already, the instruction of that tree would have the same operation, and would
have been found.

Loads are shared in either case, and so the points are loaded in the order in which they first occur
(`loadedPoints_lower`).
-/

namespace Stencil

/-! ## Kinds of operations and of trees -/

def Operation.isConst : Operation → Bool
  | const _ => true
  | _ => false

/-- The point that an operation loads. -/
def Operation.point? : Operation → Option Point
  | load p => some p
  | _ => none

/-- The points that instructions load, in order. -/
def loadedPoints (is : List Instr) : List Point := is.filterMap (·.operation.point?)

theorem length_loadedPoints (is : List Instr) :
    (loadedPoints is).length = is.countP (·.operation.isLoad) := by
  induction is with
  | nil => rfl
  | cons i is ih =>
    obtain ⟨dst, o⟩ := i
    cases o <;> simpa [loadedPoints, Operation.point?, Operation.isLoad] using ih

/-- An instruction loads a point, has a constant or computes. -/
theorem length_eq_count_kinds (is : List Instr) :
    is.length = is.countP (·.operation.isLoad) + is.countP (·.operation.isConst)
      + is.countP (·.operation.isBinary) := by
  induction is with
  | nil => rfl
  | cons i is ih =>
    have hkind : 1 = (if i.operation.isLoad = true then 1 else 0)
        + (if i.operation.isConst = true then 1 else 0)
        + (if i.operation.isBinary = true then 1 else 0) := by
      cases i.operation <;> rfl
    rw [List.length_cons, List.countP_cons, List.countP_cons, List.countP_cons]
    omega

/-! ## Trees as values -/

/-- The interpretation in which a tree is worth itself. -/
def Interpretation.tree : Interpretation Expr := ⟨fun bits => .const ⟨bits⟩, .binary⟩

theorem Expr.value_tree (e : Expr) : e.value .tree .point = e := by
  induction e with
  | const v => rfl
  | point p => rfl
  | binary op lhs rhs ihl ihr =>
    show Expr.binary op (lhs.value .tree .point) (rhs.value .tree .point) = _
    rw [ihl, ihr]

/-- The tree that an instruction of a kernel computes. -/
def Kernel.tree? (k : Kernel) (i : Instr) : Option Expr :=
  (Interpretation.tree.execute .point k.instrs noTemps).bind (· i.dst)

/-- No tree is in two temporaries. -/
def Distinct (env : Temp → Option Expr) : Prop :=
  ∀ t t' e, env t = some e → env t' = some e → t = t'

namespace Operation

variable {o o' : Operation} {env : Temp → Option Expr} {e : Expr}

/-- An operation computes a node from the operands of the node. -/
theorem value?_binary (op : Operator) {l r : Temp} {a b : Expr} (hl : env l = some a)
    (hr : env r = some b) : (binary op l r).value? .tree .point env = some (.binary op a b) := by
  rw [value?, hl, hr]
  rfl

/-- The operands of an operation that computes a node have the operands of the node. -/
theorem operands_of_value?_eq {op : Operator} {l r : Temp}
    (h : (binary op l r).value? .tree .point env = some e) :
    ∃ a b, env l = some a ∧ env r = some b ∧ e = .binary op a b := by
  rw [value?] at h
  cases hl : env l with
  | none => rw [hl] at h; exact absurd h (by simp)
  | some a =>
    cases hr : env r with
    | none => rw [hl, hr] at h; exact absurd h (by simp)
    | some b =>
      rw [hl, hr] at h
      exact ⟨a, b, rfl, rfl, (Option.some.inj h).symm⟩

theorem eq_load_of_value?_eq {p : Point} (h : o.value? .tree .point env = some (.point p)) :
    o = .load p := by
  cases o with
  | load q => injection Option.some.inj h with hq; rw [hq]
  | const v => cases h
  | binary op l r =>
    obtain ⟨_, _, _, _, he⟩ := operands_of_value?_eq h
    cases he

/-- Constants are told apart by their words. -/
theorem eq_const_of_value?_eq {v : Double} (h : o.value? .tree .point env = some (.const v)) :
    o = .const v := by
  cases o with
  | load p => cases h
  | const w =>
    injection Option.some.inj h with hv
    rw [← hv]
  | binary op l r =>
    obtain ⟨_, _, _, _, he⟩ := operands_of_value?_eq h
    cases he

theorem exists_of_value?_eq_binary {op : Operator} {a b : Expr}
    (h : o.value? .tree .point env = some (.binary op a b)) :
    ∃ l r, o = .binary op l r ∧ env l = some a ∧ env r = some b := by
  cases o with
  | load p => cases h
  | const v => cases h
  | binary op' l r =>
    obtain ⟨a', b', hl, hr, he⟩ := operands_of_value?_eq h
    injection he with hop ha hb
    subst hop ha hb
    exact ⟨l, r, rfl, hl, hr⟩

/-- A tree is of the kind of the operation that computes it. -/
theorem kind_of_value?_eq (h : o.value? .tree .point env = some e) :
    o.isConst = e.isConst ∧ o.isBinary = e.isBinary := by
  cases e with
  | point p => rw [eq_load_of_value?_eq h]; exact ⟨rfl, rfl⟩
  | const v => rw [eq_const_of_value?_eq h]; exact ⟨rfl, rfl⟩
  | binary op a b =>
    obtain ⟨l, r, rfl, _⟩ := exists_of_value?_eq_binary h
    exact ⟨rfl, rfl⟩

/-- **A tree is computed by one operation**, where no tree is in two temporaries. -/
theorem eq_of_value?_eq (hdistinct : Distinct env) (h : o.value? .tree .point env = some e)
    (h' : o'.value? .tree .point env = some e) : o = o' := by
  cases e with
  | point p => rw [eq_load_of_value?_eq h, eq_load_of_value?_eq h']
  | const v => rw [eq_const_of_value?_eq h, eq_const_of_value?_eq h']
  | binary op a b =>
    obtain ⟨l, r, rfl, hl, hr⟩ := exists_of_value?_eq_binary h
    obtain ⟨l', r', rfl, hl', hr'⟩ := exists_of_value?_eq_binary h'
    rw [hdistinct l l' a hl hl', hdistinct r r' b hr hr']

end Operation

namespace Lowering

variable {l : Lowering} {env env' : Temp → Option Expr}

/-! ## One tree, one temporary -/

/-- With sharing an instruction is new only if its operation is. -/
theorem emit_true_cases (l : Lowering) (o : Operation) :
    (∃ t, l.emit true o = (t, l) ∧ ⟨t, o⟩ ∈ l.instrs)
      ∨ (l.emit true o = l.append o ∧ ∀ t, ⟨t, o⟩ ∉ l.instrs) := by
  cases hf : l.instrs.find? (·.operation == o) with
  | some i =>
    have hop : i.operation = o := by simpa using List.find?_some hf
    refine Or.inl ⟨i.dst, by simp [emit, find?, hf], ?_⟩
    rw [← hop]
    exact List.mem_of_find?_eq_some hf
  | none =>
    refine Or.inr ⟨by simp [emit, find?, hf], ?_⟩
    intro t ht
    exact absurd (List.find?_eq_none.mp hf _ ht) (by simp)

/-- A temporary that has a value has an instruction. -/
theorem Runs.exists_instr (h : Runs .tree .point l env) (hnumbered : Numbered l) {t : Temp}
    {e : Expr} (ht : env t = some e) :
    ∃ o, ⟨t, o⟩ ∈ l.instrs ∧ o.value? .tree .point env = some e := by
  have hlt : t.index < l.supply.temps := by
    by_contra hge
    rw [h.fresh t (Nat.le_of_not_lt hge)] at ht
    exact absurd ht (by simp)
  have hdst : t ∈ l.instrs.map Instr.dst := by
    rw [hnumbered]
    exact List.mem_map.mpr ⟨t.index, List.mem_range.mpr hlt, rfl⟩
  obtain ⟨i, hi, rfl⟩ := List.mem_map.mp hdst
  obtain ⟨v, hv, hdst⟩ := h.holds i hi
  rw [ht] at hdst
  exact ⟨i.operation, hi, hv.trans hdst.symm⟩

/-- What the instructions leave is determined by the instructions and by what is read. -/
theorem Runs.unique (h : Runs .tree .point l env) (h' : Runs .tree .point l env') : env = env' :=
  Option.some.inj (h.run.symm.trans h'.run)

/-- A shared emission keeps trees in one temporary each. -/
theorem Runs.distinct_emit (h : Runs .tree .point l env) (hnumbered : Numbered l)
    (hdistinct : Distinct env) {o : Operation} {e : Expr}
    (hv : o.value? .tree .point env = some e) (h' : Runs .tree .point (l.emit true o).2 env') :
    Distinct env' := by
  rcases emit_true_cases l o with ⟨t, he, _⟩ | ⟨he, hnew⟩
  · rw [he] at h'
    rw [← h.unique h']
    exact hdistinct
  · rw [he] at h'
    rw [← (h.append hv).unique h']
    -- a temporary that has the tree already would have its instruction
    have hfresh : ∀ t, env t ≠ some e := by
      intro t ht
      obtain ⟨o', hmem, hv'⟩ := h.exists_instr hnumbered ht
      rw [← Operation.eq_of_value?_eq hdistinct hv hv'] at hmem
      exact hnew t hmem
    intro s s' e' hs hs'
    by_cases hlast : s = (l.append o).1
    · by_cases hlast' : s' = (l.append o).1
      · rw [hlast, hlast']
      · rw [hlast, Function.update_self] at hs
        rw [Function.update_of_ne hlast', ← Option.some.inj hs] at hs'
        exact absurd hs' (hfresh s')
    · rw [Function.update_of_ne hlast] at hs
      by_cases hlast' : s' = (l.append o).1
      · rw [hlast', Function.update_self] at hs'
        rw [← Option.some.inj hs'] at hs
        exact absurd hs (hfresh s)
      · rw [Function.update_of_ne hlast'] at hs'
        exact hdistinct s s' e' hs hs'

/-- **With sharing no tree is in two temporaries.** -/
theorem Runs.distinct_lower (e : Expr) :
    ∀ {l : Lowering} {env env' : Temp → Option Expr}, Runs .tree .point l env → Numbered l →
      Distinct env → Runs .tree .point (Lowering.lower true e l).2 env' → Distinct env' := by
  induction e with
  | const v =>
    intro l env env' h hnumbered hdistinct h'
    exact h.distinct_emit hnumbered hdistinct (o := .const v) rfl h'
  | point p =>
    intro l env env' h hnumbered hdistinct h'
    exact h.distinct_emit hnumbered hdistinct (o := .load p) rfl h'
  | binary op lhs rhs ihl ihr =>
    intro l env env' h hnumbered hdistinct h'
    obtain ⟨env₁, h₁, _, hval₁, _⟩ := h.lower true lhs
    obtain ⟨env₂, h₂, hext₂, hval₂, _⟩ := h₁.lower true rhs
    have hnumbered₁ := hnumbered.lower true lhs
    have hdistinct₂ := ihr h₁ hnumbered₁ (ihl h hnumbered hdistinct h₁) h₂
    exact h₂.distinct_emit (hnumbered₁.lower true rhs) hdistinct₂
      (Operation.value?_binary op (hext₂ _ _ hval₁) hval₂) h'

/-- Every subtree has a temporary that holds it after the run. -/
theorem Runs.exists_temp (share : Bool) (e : Expr) :
    ∀ {l : Lowering} {env env' : Temp → Option Expr}, Runs .tree .point l env →
      Runs .tree .point (Lowering.lower share e l).2 env' →
      ∀ s ∈ e.subtrees, ∃ t, env' t = some s := by
  -- the tree itself has the temporary that lowering it gives
  have hroot : ∀ (e : Expr) {l : Lowering} {env env' : Temp → Option Expr},
      Runs .tree .point l env → Runs .tree .point (Lowering.lower share e l).2 env' →
      ∃ t, env' t = some e := by
    intro e l env env' h h'
    obtain ⟨env₁, h₁, _, hval, _⟩ := h.lower share e
    rw [h₁.unique h', e.value_tree] at hval
    exact ⟨_, hval⟩
  induction e with
  | const v => intro l env env' h h' s hs; rw [List.mem_singleton.mp hs]; exact hroot _ h h'
  | point p => intro l env env' h h' s hs; rw [List.mem_singleton.mp hs]; exact hroot _ h h'
  | binary op lhs rhs ihl ihr =>
    intro l env env' h h' s hs
    obtain ⟨env₁, h₁, _, hval₁, _⟩ := h.lower share lhs
    obtain ⟨env₂, h₂, hext₂, hval₂, _⟩ := h₁.lower share rhs
    obtain ⟨env₃, h₃, hext₃, _⟩ :=
      h₂.emit share (Operation.value?_binary op (hext₂ _ _ hval₁) hval₂)
    obtain rfl : env₃ = env' := h₃.unique h'
    rcases List.mem_cons.mp hs with rfl | hs
    · exact hroot _ h h'
    · rcases List.mem_append.mp hs with hs | hs
      · obtain ⟨t, ht⟩ := ihl h h₁ s hs
        exact ⟨t, hext₃ _ _ (hext₂ _ _ ht)⟩
      · obtain ⟨t, ht⟩ := ihr h₁ h₂ s hs
        exact ⟨t, hext₃ _ _ ht⟩

/-! ## What is not shared -/

/-- Without sharing there is an instruction for every constant and for every operator. -/
theorem count_lower_false (e : Expr) : ∀ l : Lowering,
    (lower false e l).2.instrs.countP (·.operation.isConst)
        = l.instrs.countP (·.operation.isConst) + e.subtrees.countP Expr.isConst
      ∧ (lower false e l).2.instrs.countP (·.operation.isBinary)
        = l.instrs.countP (·.operation.isBinary) + e.subtrees.countP Expr.isBinary := by
  induction e with
  | const v =>
    intro l
    show (l.instrs ++ [_]).countP _ = _ ∧ (l.instrs ++ [_]).countP _ = _
    rw [List.countP_append, List.countP_append]
    exact ⟨rfl, rfl⟩
  | point p =>
    intro l
    show (l.emit true (.load p)).2.instrs.countP _ = _
      ∧ (l.emit true (.load p)).2.instrs.countP _ = _
    -- loads are shared in any case, and are counted neither as constants nor as operations
    rcases emit_true_cases l (.load p) with ⟨t, he, _⟩ | ⟨he, _⟩
    · rw [he]
      exact ⟨rfl, rfl⟩
    · rw [he]
      show (l.instrs ++ [_]).countP _ = _ ∧ (l.instrs ++ [_]).countP _ = _
      rw [List.countP_append, List.countP_append]
      exact ⟨rfl, rfl⟩
  | binary op lhs rhs ihl ihr =>
    intro l
    obtain ⟨hconst, hbinary⟩ := ihl l
    obtain ⟨hconst', hbinary'⟩ := ihr (lower false lhs l).2
    show ((lower false rhs (lower false lhs l).2).2.instrs ++ [_]).countP _ = _
      ∧ ((lower false rhs (lower false lhs l).2).2.instrs ++ [_]).countP _ = _
    rw [List.countP_append, List.countP_append, hconst', hbinary', hconst, hbinary]
    simp only [Expr.subtrees, List.countP_cons, List.countP_append, List.countP_nil,
      Operation.isConst, Operation.isBinary, Expr.isConst, Expr.isBinary]
    constructor
    · simp only [Bool.false_eq_true, if_false]
      omega
    · simp only [if_true]
      omega

/-! ## Loads -/

/-- Only a load loads a point; other operations leave the list as it is. -/
theorem loadedPoints_emit {o : Operation} (h : o.point? = none) (l : Lowering) (share : Bool) :
    loadedPoints (l.emit share o).2.instrs = loadedPoints l.instrs := by
  rcases emit_cases l share o with ⟨t, he, _⟩ | he
  · rw [he]
  · rw [he]
    show loadedPoints (l.instrs ++ [⟨_, o⟩]) = _
    simp [loadedPoints, h]

/-- A point is loaded where it is new. -/
theorem loadedPoints_emit_load (l : Lowering) (p : Point) {ps : List Point}
    (h : loadedPoints l.instrs = ps.eraseDups) :
    loadedPoints (l.emit true (.load p)).2.instrs = (ps ++ [p]).eraseDups := by
  -- a point has been met before exactly if an instruction loads it
  have hmem : p ∈ ps ↔ ∃ t, ⟨t, .load p⟩ ∈ l.instrs := by
    rw [← List.mem_eraseDups, ← h, loadedPoints, List.mem_filterMap]
    constructor
    · rintro ⟨⟨t, o⟩, hi, ho⟩
      cases o with
      | load q => obtain rfl := Option.some.inj ho; exact ⟨t, hi⟩
      | const v => cases ho
      | binary op lhs rhs => cases ho
    · rintro ⟨t, ht⟩
      exact ⟨_, ht, rfl⟩
  rw [List.eraseDups_append]
  rcases emit_true_cases l (.load p) with ⟨t, he, ht⟩ | ⟨he, hnew⟩
  · have hp : p ∈ ps := hmem.mpr ⟨t, ht⟩
    rw [he, h]
    simp [List.removeAll, hp]
  · have hp : p ∉ ps := fun hp => absurd (hmem.mp hp) (not_exists.mpr hnew)
    rw [he]
    show loadedPoints (l.instrs ++ [⟨_, .load p⟩]) = _
    rw [loadedPoints, List.filterMap_append, ← loadedPoints, h]
    simp [List.removeAll, hp, Operation.point?, List.eraseDups_cons]

/-- **Points are loaded once, in the order in which they first occur**, with sharing and without. -/
theorem loadedPoints_lower (share : Bool) (e : Expr) : ∀ {l : Lowering} {ps : List Point},
    loadedPoints l.instrs = ps.eraseDups →
      loadedPoints (lower share e l).2.instrs = (ps ++ e.points).eraseDups := by
  induction e with
  | const v =>
    intro l ps h
    show loadedPoints (l.emit share (.const v)).2.instrs = _
    rw [loadedPoints_emit rfl, h]
    simp [Expr.points]
  | point p =>
    intro l ps h
    exact loadedPoints_emit_load l p h
  | binary op lhs rhs ihl ihr =>
    intro l ps h
    show loadedPoints (Lowering.emit _ share (.binary op _ _)).2.instrs = _
    rw [loadedPoints_emit rfl, ihr (ihl h), List.append_assoc]
    rfl

end Lowering

/-! ## Kernels -/

namespace Equation

/-- The trees that the instructions of a kernel compute are what execution leaves. -/
theorem tree?_kernel (e : Equation) (index : Nat) (share : Bool) :
    ∃ env, Lowering.Runs .tree .point (Lowering.lower share e.rhs .start).2 env
      ∧ (∀ i, (e.kernel index share).tree? i = env i.dst)
      ∧ (∀ t s, env t = some s → s ∈ e.rhs.subtrees)
      ∧ (share = true → Distinct env) := by
  -- run over trees, a kernel leaves in each temporary the tree that it computes
  have hstart : Lowering.Runs .tree .point .start noTemps := Lowering.runs_start
  obtain ⟨env, hruns, _, _, hvalues⟩ := hstart.lower share e.rhs
  refine ⟨env, hruns, ?_, ?_, ?_⟩
  · intro i
    show (Interpretation.tree.execute .point (Lowering.lower share e.rhs .start).2.instrs
      noTemps).bind _ = _
    rw [hruns.run]
    rfl
  · intro t s hs
    rcases hvalues t s hs with hnone | ⟨s', hs', rfl⟩
    · exact absurd hnone (by simp [noTemps])
    · rw [s'.value_tree]
      exact hs'
  · rintro rfl
    apply hstart.distinct_lower e.rhs Lowering.numbered_start _ hruns
    intro t t' s hs
    exact absurd hs (by simp [noTemps])

variable (e : Equation) (index : Nat) (share : Bool)

/-- An instruction computes a tree of the kind of its operation. -/
theorem exists_tree {i : Instr} (hi : i ∈ (e.kernel index share).instrs) :
    ∃ s ∈ e.rhs.subtrees, (e.kernel index share).tree? i = some s
      ∧ i.operation.isConst = s.isConst ∧ i.operation.isBinary = s.isBinary := by
  obtain ⟨env, hruns, htree, hsub, _⟩ := e.tree?_kernel index share
  obtain ⟨s, hs, hdst⟩ := hruns.holds i hi
  exact ⟨s, hsub _ s hdst, (htree i).trans hdst, Operation.kind_of_value?_eq hs⟩

/-- Every subtree is computed by an instruction, shared or not. -/
theorem exists_instr_of_mem_subtrees {s : Expr} (hs : s ∈ e.rhs.subtrees) :
    ∃ i ∈ (e.kernel index share).instrs, (e.kernel index share).tree? i = some s := by
  obtain ⟨env, hruns, htree, _⟩ := e.tree?_kernel index share
  obtain ⟨t, ht⟩ := Lowering.Runs.exists_temp share e.rhs Lowering.runs_start hruns s hs
  obtain ⟨o, ho, _⟩ := hruns.exists_instr (Lowering.numbered_start.lower share e.rhs) ht
  exact ⟨_, ho, (htree _).trans ht⟩

theorem nodup_instrs : (e.kernel index share).instrs.Nodup :=
  (Lowering.numbered_start.lower share e.rhs).nodup.of_map

/-- With sharing no two instructions compute one tree. -/
theorem eq_of_tree?_eq {i j : Instr} (hi : i ∈ (e.kernel index true).instrs)
    (hj : j ∈ (e.kernel index true).instrs)
    (h : (e.kernel index true).tree? i = (e.kernel index true).tree? j) : i = j := by
  obtain ⟨env, hruns, htree, _, hdistinct⟩ := e.tree?_kernel index true
  obtain ⟨s, _, hdst⟩ := hruns.holds i hi
  rw [htree, htree, hdst] at h
  have hnodup := (Lowering.numbered_start.lower true e.rhs).nodup
  exact List.inj_on_of_nodup_map hnodup hi hj (hdistinct rfl _ _ s hdst h.symm)

/-- With sharing no two instructions have the same operation and operands. -/
theorem nodup_operations : ((e.kernel index true).instrs.map Instr.operation).Nodup := by
  obtain ⟨env, hruns, htree, _⟩ := e.tree?_kernel index true
  apply (e.nodup_instrs index true).map_on
  intro i hi j hj hop
  apply e.eq_of_tree?_eq index hi hj
  -- the same operation has the same value
  obtain ⟨s, hs, hdst⟩ := hruns.holds i hi
  obtain ⟨s', hs', hdst'⟩ := hruns.holds j hj
  rw [htree, htree, hdst, hdst', ← hs, ← hs', hop]

/-- The trees that the instructions compute, in order. -/
def computedTrees : List Expr :=
  (e.kernel index share).instrs.filterMap (e.kernel index share).tree?

variable {e index share}

theorem mem_computedTrees {s : Expr} : s ∈ e.computedTrees index share ↔ s ∈ e.rhs.subtrees := by
  rw [computedTrees, List.mem_filterMap]
  constructor
  · rintro ⟨i, hi, hs⟩
    obtain ⟨s', hs', htree, _⟩ := e.exists_tree index share hi
    rw [hs] at htree
    rwa [Option.some.inj htree]
  · exact fun hs => e.exists_instr_of_mem_subtrees index share hs

theorem length_computedTrees :
    (e.computedTrees index share).length = (e.kernel index share).instrs.length := by
  rw [computedTrees, List.filterMap_length_eq_length]
  intro i hi
  obtain ⟨s, _, htree, _⟩ := e.exists_tree index share hi
  rw [htree]
  rfl

/-- Instructions are counted as the trees that they compute. -/
theorem countP_computedTrees {p : Operation → Bool} {q : Expr → Bool}
    (h : ∀ i ∈ (e.kernel index share).instrs, ∀ s,
      (e.kernel index share).tree? i = some s → p i.operation = q s) :
    (e.kernel index share).instrs.countP (fun i => p i.operation)
      = (e.computedTrees index share).countP q := by
  rw [computedTrees, List.countP_filterMap]
  apply List.countP_congr
  intro i hi
  obtain ⟨s, _, htree, _⟩ := e.exists_tree index share hi
  rw [htree, h i hi s htree]
  rfl

theorem countP_isConst_computedTrees :
    (e.kernel index share).instrs.countP (·.operation.isConst)
      = (e.computedTrees index share).countP Expr.isConst := by
  apply countP_computedTrees
  intro i hi s hs
  obtain ⟨s', _, htree, hconst, _⟩ := e.exists_tree index share hi
  rw [hs] at htree
  rw [hconst, Option.some.inj htree]

theorem numOps_kernel :
    (e.kernel index share).numOps = (e.computedTrees index share).countP Expr.isBinary := by
  apply countP_computedTrees
  intro i hi s hs
  obtain ⟨s', _, htree, _, hbinary⟩ := e.exists_tree index share hi
  rw [hs] at htree
  rw [hbinary, Option.some.inj htree]

theorem nodup_computedTrees : (e.computedTrees index true).Nodup := by
  rw [computedTrees, List.Nodup, List.pairwise_filterMap]
  apply (e.nodup_instrs index true).pairwise_of_forall_ne
  rintro i hi j hj hne s hs s' hs' rfl
  exact hne (e.eq_of_tree?_eq index hi hj (hs.trans hs'.symm))

theorem toFinset_computedTrees (e : Equation) (index : Nat) (share : Bool) :
    (e.computedTrees index share).toFinset = e.rhs.subtrees.toFinset := by
  ext s
  rw [List.mem_toFinset, List.mem_toFinset, mem_computedTrees]

/-- **Sharing merges equal subtrees, and nothing else.** If the right-hand side of an equation
    divides by no zero, the equation has a kernel with shared values and one without.

    * With sharing, the instructions are in bijection with the subtrees of the right-hand side, an
      instruction with the tree that it computes. So there are as many instructions as there are
      distinct subtrees, as many operations as there are distinct subtrees with an operator at the
      root, and no two instructions have the same operation and operands.
    * Without, there are as many constants and operations as there are in the tree.
    * In both, the points of the tree are loaded once each, in the order in which they first occur
      from left to right. So both load as many, and the shared kernel is not longer.

    Trees are equal if they are built alike, with constants of the same words. There are at most as
    many instructions as nodes, so that a 32-bit counter numbers them if there are fewer than
    `2 ^ 32` nodes. -/
theorem lower_shares_exactly (e : Equation) (index : Nat) (h : e.rhs.zeroDivision? = none) :
    ∃ shared plain : Kernel,
      e.lower index true = .ok shared ∧ e.lower index false = .ok plain
      ∧ shared.instrs.Nodup
      ∧ Set.BijOn shared.tree? {i | i ∈ shared.instrs} {t | ∃ s ∈ e.rhs.subtrees, t = some s}
      ∧ shared.instrs.length = e.rhs.subtrees.toFinset.card
      ∧ shared.numOps = (e.rhs.subtrees.toFinset.filter (·.isBinary)).card
      ∧ (shared.instrs.map Instr.operation).Nodup
      ∧ plain.instrs.countP (·.operation.isConst) = e.rhs.subtrees.countP Expr.isConst
      ∧ plain.numOps = e.rhs.subtrees.countP Expr.isBinary
      ∧ loadedPoints shared.instrs = e.rhs.points.eraseDups
      ∧ loadedPoints plain.instrs = e.rhs.points.eraseDups
      ∧ shared.numLoads = plain.numLoads
      ∧ shared.instrs.length ≤ plain.instrs.length
      ∧ plain.instrs.length ≤ e.rhs.size := by
  have hloads : ∀ share, loadedPoints (e.kernel index share).instrs = e.rhs.points.eraseDups :=
    fun share => @Lowering.loadedPoints_lower share e.rhs .start [] rfl
  have hplain := Lowering.count_lower_false e.rhs .start
  rw [show Lowering.start.instrs = [] from rfl, List.countP_nil, List.countP_nil, Nat.zero_add,
    Nat.zero_add] at hplain
  have hnumLoads : (e.kernel index true).numLoads = (e.kernel index false).numLoads := by
    rw [Kernel.numLoads, Kernel.numLoads, ← length_loadedPoints, ← length_loadedPoints, hloads,
      hloads]
  have hdistinct : (e.computedTrees index true).Nodup := nodup_computedTrees
  refine ⟨e.kernel index true, e.kernel index false, lower_eq_kernel h index true,
    lower_eq_kernel h index false, e.nodup_instrs index true, ⟨?_, ?_, ?_⟩, ?_, ?_,
    e.nodup_operations index, hplain.1, hplain.2, hloads true, hloads false, hnumLoads, ?_, ?_⟩
  · intro i hi
    obtain ⟨s, hs, htree, _⟩ := e.exists_tree index true hi
    exact ⟨s, hs, htree⟩
  · intro i hi j hj htree
    exact e.eq_of_tree?_eq index hi hj htree
  · rintro _ ⟨s, hs, rfl⟩
    exact e.exists_instr_of_mem_subtrees index true hs
  · rw [← length_computedTrees, ← e.toFinset_computedTrees index true,
      List.toFinset_card_of_nodup hdistinct]
  · rw [numOps_kernel, ← e.toFinset_computedTrees index true,
      ← List.toFinset_filter, List.toFinset_card_of_nodup (hdistinct.filter _),
      List.countP_eq_length_filter]
  · -- of constants and of operations there are at most as many as in the tree
    have hsub : (e.computedTrees index true).Subperm e.rhs.subtrees :=
      hdistinct.subperm fun s hs => mem_computedTrees.mp hs
    have hconst := hsub.countP_le Expr.isConst
    have hbinary := hsub.countP_le Expr.isBinary
    rw [← countP_isConst_computedTrees, ← hplain.1] at hconst
    rw [← numOps_kernel, ← hplain.2] at hbinary
    rw [length_eq_count_kinds, length_eq_count_kinds (e.kernel index false).instrs]
    exact Nat.add_le_add (Nat.add_le_add hnumLoads.le hconst) hbinary
  · have hle := Lowering.temps_lower_le false e.rhs .start
    have hlength : (Lowering.lower false e.rhs .start).2.instrs.length
        = (Lowering.lower false e.rhs .start).2.supply.temps := by
      simpa using congrArg List.length (Lowering.numbered_start.lower false e.rhs)
    show (Lowering.lower false e.rhs .start).2.instrs.length ≤ e.rhs.size
    rw [hlength]
    simpa [Lowering.start, Supply.full] using hle

/-- `flux(k+1) EQUALS ((0.0 * flux(k)) + ((0.0 * flux(k)) + (-0.0 * flux(k))))`. -/
def zeroFlux : Equation :=
  let flux : Grid := ⟨"flux", [⟨"k", .step⟩], by decide⟩
  let now : Expr := .point ⟨flux, [0], by decide⟩
  let none : Expr := .binary .mul (.const ⟨0⟩) now
  let less : Expr := .binary .mul (.const ⟨0x8000000000000000⟩) now
  ⟨⟨flux, [1], by decide⟩, .binary .add none (.binary .add none less), by decide⟩

/-- One of the products is shared. The one with the other zero is not, and the two sums have
    different operands. -/
theorem lower_shares_exactly_zeroFlux :
    ∃ shared plain : Kernel,
      zeroFlux.lower 0 true = .ok shared ∧ zeroFlux.lower 0 false = .ok plain
      ∧ shared.instrs.length = 7 ∧ plain.instrs.length = 9
      ∧ shared.numOps = 4 ∧ plain.numOps = 5
      ∧ (shared.instrs.map Instr.operation).Nodup
      ∧ shared.numLoads = plain.numLoads := by
  obtain ⟨shared, plain, hshared, hplain, _, _, _, _, hnodup, _, _, _, _, hloads, _, _⟩ :=
    lower_shares_exactly zeroFlux 0 (by decide)
  obtain rfl := eq_kernel_of_lower hshared
  obtain rfl := eq_kernel_of_lower hplain
  exact ⟨_, _, hshared, hplain, by decide, by decide, by decide, by decide, hnodup, hloads⟩

end Equation

end Stencil
