import Mathlib
import Stencil.Kernel
import Stencil.Proofs.Interpretation

/-!
# Lowering keeps the meaning of an equation

Straight-line code is executed instruction by instruction; a temporary that is read before it is
defined stops the execution. The kernel of an equation never stops, and leaves the value of the
right-hand side in its result, whether or not equal values are shared.

The invariant is `Lowering.Runs`: the instructions so far run to the end, every one of them **still
holds** of the temporaries that are left, and no temporary of the supply is taken. What is shared is
then right because the instruction that is found holds, however long ago it was emitted.
-/

namespace Stencil

universe u

variable {V : Type u} {I : Interpretation V} {read : Point → V}

/-! ## Execution -/

/-- The value of an operation, if the temporaries that it reads have one. -/
def Operation.value? (I : Interpretation V) (read : Point → V) (env : Temp → Option V) :
    Operation → Option V
  | load p => some (read p)
  | const v => some (I.const v.bits)
  | binary op lhs rhs =>
    match env lhs, env rhs with
    | some a, some b => some (I.op op a b)
    | _, _ => none

/-- The temporaries after some instructions. There are none if an instruction reads an undefined
    temporary. -/
def Interpretation.execute (I : Interpretation V) (read : Point → V) :
    List Instr → (Temp → Option V) → Option (Temp → Option V)
  | [], env => some env
  | i :: is, env =>
    match i.operation.value? I read env with
    | some v => I.execute read is (Function.update env i.dst (some v))
    | none => none

/-- Every temporary undefined. -/
def noTemps : Temp → Option V := fun _ => none

/-- What a kernel leaves in its result, unless it reads an undefined temporary. -/
def Kernel.value? (I : Interpretation V) (read : Point → V) (k : Kernel) : Option V :=
  (I.execute read k.instrs noTemps).bind (· k.result)

/-- Instructions are executed in order. -/
theorem execute_append (is js : List Instr) (env : Temp → Option V) :
    I.execute read (is ++ js) env = (I.execute read is env).bind (I.execute read js) := by
  induction is generalizing env with
  | nil => rfl
  | cons i is ih =>
    rw [List.cons_append, Interpretation.execute, Interpretation.execute]
    cases i.operation.value? I read env with
    | none => rfl
    | some v => exact ih _

/-! ## More temporaries -/

/-- Whatever has a value keeps it. -/
def Extends (env env' : Temp → Option V) : Prop := ∀ t v, env t = some v → env' t = some v

theorem Extends.refl {env : Temp → Option V} : Extends env env := fun _ _ h => h

theorem Extends.trans {env₁ env₂ env₃ : Temp → Option V}
    (h₁ : Extends env₁ env₂) (h₂ : Extends env₂ env₃) : Extends env₁ env₃ :=
  fun t v h => h₂ t v (h₁ t v h)

/-- Defining a new temporary changes no other. -/
theorem extends_update {env : Temp → Option V} {t : Temp} {w : V} (h : env t = none) :
    Extends env (Function.update env t (some w)) := by
  intro s v hs
  have hne : s ≠ t := by
    intro he
    rw [he, h] at hs
    exact absurd hs (by simp)
  rw [Function.update_of_ne hne]
  exact hs

/-- An operation keeps its value when there are more temporaries. -/
theorem value?_mono {env env' : Temp → Option V} (h : Extends env env') {o : Operation} {v : V}
    (hv : o.value? I read env = some v) : o.value? I read env' = some v := by
  cases o with
  | load p => exact hv
  | const c => exact hv
  | binary op lhs rhs =>
    rw [Operation.value?] at hv
    cases hl : env lhs with
    | none => rw [hl] at hv; exact absurd hv (by simp)
    | some a =>
      cases hr : env rhs with
      | none => rw [hl, hr] at hv; exact absurd hv (by simp)
      | some b =>
        rw [hl, hr] at hv
        rw [Operation.value?, h lhs a hl, h rhs b hr]
        exact hv

/-! ## What one emission does -/

namespace Lowering

/-- An emission finds an instruction for the operation, or appends one. -/
theorem emit_cases (l : Lowering) (share : Bool) (o : Operation) :
    (∃ t, l.emit share o = (t, l) ∧ ⟨t, o⟩ ∈ l.instrs) ∨ l.emit share o = l.append o := by
  unfold emit
  cases share with
  | false => exact Or.inr rfl
  | true =>
    cases hf : l.instrs.find? (·.operation == o) with
    | none => exact Or.inr (by simp [find?, hf])
    | some i =>
      have hmem : i ∈ l.instrs := List.mem_of_find?_eq_some hf
      have hop : i.operation = o := by simpa using List.find?_some hf
      refine Or.inl ⟨i.dst, by simp [find?, hf], ?_⟩
      rw [← hop]
      exact hmem

/-- What appending keeps, emitting keeps: it appends an instruction or finds one that is there. -/
theorem emit_induct {P : Lowering → Prop} (happend : ∀ l o, P l → P (l.append o).2)
    {l : Lowering} (hl : P l) (share : Bool) (o : Operation) : P (l.emit share o).2 := by
  rcases emit_cases l share o with ⟨t, he, _⟩ | he
  · rw [he]; exact hl
  · rw [he]; exact happend l o hl

/-- What appending keeps, lowering keeps, as lowering is made of emissions. -/
theorem lower_induct {P : Lowering → Prop} (happend : ∀ l o, P l → P (l.append o).2)
    (share : Bool) (e : Expr) : ∀ {l}, P l → P (lower share e l).2 := by
  induction e with
  | const v => intro l hl; exact emit_induct happend hl share _
  | point p => intro l hl; exact emit_induct happend hl true _
  | binary op lhs rhs ihl ihr =>
    intro l hl
    exact emit_induct happend (ihr (ihl hl)) share _

/-! ## The run so far -/

/-- **The invariant.** The instructions run to the end and leave `env`; every instruction still
    holds of `env`; and the temporaries of the supply are undefined. -/
structure Runs (I : Interpretation V) (read : Point → V) (l : Lowering) (env : Temp → Option V) :
    Prop where
  run : I.execute read l.instrs noTemps = some env
  holds : ∀ i ∈ l.instrs, ∃ v, i.operation.value? I read env = some v ∧ env i.dst = some v
  fresh : ∀ t : Temp, l.supply.temps ≤ t.index → env t = none

theorem runs_start : Runs I read start noTemps :=
  ⟨rfl, fun _ hi => absurd hi (by simp [start]), fun _ _ => rfl⟩

/-- A new instruction runs after the others, and defines the next temporary. -/
theorem Runs.append {l : Lowering} {env : Temp → Option V} (h : Runs I read l env)
    {o : Operation} {v : V} (hv : o.value? I read env = some v) :
    Runs I read (l.append o).2 (Function.update env (l.append o).1 (some v)) := by
  -- the number is new, so that the values there are stay
  have hnew : env ⟨l.supply.temps⟩ = none := h.fresh _ (Nat.le_refl _)
  have hext : Extends env (Function.update env (l.append o).1 (some v)) := extends_update hnew
  refine ⟨?_, ?_, ?_⟩
  · show I.execute read (l.instrs ++ [⟨⟨l.supply.temps⟩, o⟩]) noTemps = _
    rw [execute_append, h.run]
    simp only [Option.bind_some, Interpretation.execute, hv]
    rfl
  · intro i hi
    rcases List.mem_append.mp hi with hi | hi
    · obtain ⟨w, hw, hdst⟩ := h.holds i hi
      exact ⟨w, value?_mono hext hw, hext _ _ hdst⟩
    · rw [List.mem_singleton] at hi
      subst hi
      exact ⟨v, value?_mono hext hv, Function.update_self ..⟩
  · intro t ht
    have hlt : l.supply.temps < t.index := ht
    have hne : t ≠ ⟨l.supply.temps⟩ := by
      intro he
      rw [he] at hlt
      exact absurd hlt (Nat.lt_irrefl _)
    show Function.update env ⟨l.supply.temps⟩ (some v) t = none
    rw [Function.update_of_ne hne]
    exact h.fresh t (Nat.le_of_lt hlt)

/-- **One emission.** The temporary that it gives has the value of the operation, the others keep
    theirs, and there is no other value. -/
theorem Runs.emit {l : Lowering} {env : Temp → Option V} (h : Runs I read l env) (share : Bool)
    {o : Operation} {v : V} (hv : o.value? I read env = some v) :
    ∃ env', Runs I read (l.emit share o).2 env' ∧ Extends env env'
      ∧ env' (l.emit share o).1 = some v
      ∧ ∀ t w, env' t = some w → env t = some w ∨ w = v := by
  rcases emit_cases l share o with ⟨t, he, hmem⟩ | he
  · -- shared: the instruction that was found holds of `env`, so its temporary has the value
    rw [he]
    obtain ⟨w, hw, hdst⟩ := h.holds _ hmem
    have hvw : v = w := Option.some.inj (hv.symm.trans hw)
    exact ⟨env, h, Extends.refl, hvw ▸ hdst, fun _ _ ht => Or.inl ht⟩
  · rw [he]
    refine ⟨_, h.append hv, extends_update (h.fresh _ (Nat.le_refl _)), Function.update_self .., ?_⟩
    intro t w ht
    by_cases hnew : t = (l.append o).1
    · rw [hnew, Function.update_self] at ht
      exact Or.inr (Option.some.inj ht).symm
    · rw [Function.update_of_ne hnew] at ht
      exact Or.inl ht

/-- **Lowering a tree.** The temporary that it gives has the value of the tree, and the temporaries
    from before keep theirs. All other values are values of subtrees. -/
theorem Runs.lower (share : Bool) (e : Expr) :
    ∀ {l : Lowering} {env : Temp → Option V}, Runs I read l env →
      ∃ env', Runs I read (Lowering.lower share e l).2 env' ∧ Extends env env'
        ∧ env' (Lowering.lower share e l).1 = some (e.value I read)
        ∧ ∀ t w, env' t = some w → env t = some w ∨ ∃ s ∈ e.subtrees, w = s.value I read := by
  -- a leaf is its only subtree
  have hleaf : ∀ {e : Expr}, e.subtrees = [e] → ∀ {env env' : Temp → Option V},
      (∀ t w, env' t = some w → env t = some w ∨ w = e.value I read) →
        ∀ t w, env' t = some w → env t = some w ∨ ∃ s ∈ e.subtrees, w = s.value I read := by
    intro e he env env' h t w ht
    rw [he]
    exact (h t w ht).imp_right fun hw => ⟨e, List.mem_singleton.mpr rfl, hw⟩
  induction e with
  | const v =>
    intro l env h
    obtain ⟨env', h', hext, hval, hvalues⟩ := h.emit share (o := .const v) rfl
    exact ⟨env', h', hext, hval, hleaf rfl hvalues⟩
  | point p =>
    intro l env h
    obtain ⟨env', h', hext, hval, hvalues⟩ := h.emit true (o := .load p) rfl
    exact ⟨env', h', hext, hval, hleaf rfl hvalues⟩
  | binary op lhs rhs ihl ihr =>
    intro l env h
    obtain ⟨env₁, h₁, hext₁, hval₁, hvalues₁⟩ := ihl h
    obtain ⟨env₂, h₂, hext₂, hval₂, hvalues₂⟩ := ihr h₁
    -- the left operand was lowered first; its temporary survives the right one
    have hlhs := hext₂ _ _ hval₁
    have hv : (Operation.binary op (Lowering.lower share lhs l).1
        (Lowering.lower share rhs (Lowering.lower share lhs l).2).1).value? I read env₂
          = some ((Expr.binary op lhs rhs).value I read) := by
      simp only [Operation.value?, hlhs, hval₂, Expr.value]
    obtain ⟨env₃, h₃, hext₃, hval₃, hvalues₃⟩ := h₂.emit share hv
    refine ⟨env₃, h₃, (hext₁.trans hext₂).trans hext₃, hval₃, ?_⟩
    intro t w ht
    rcases hvalues₃ t w ht with ht | rfl
    · rcases hvalues₂ t w ht with ht | ⟨s, hs, rfl⟩
      · rcases hvalues₁ t w ht with ht | ⟨s, hs, rfl⟩
        · exact Or.inl ht
        · exact Or.inr ⟨s, by simp [Expr.subtrees, hs], rfl⟩
      · exact Or.inr ⟨s, by simp [Expr.subtrees, hs], rfl⟩
    · exact Or.inr ⟨_, List.mem_cons_self, rfl⟩

/-! ## The names of the temporaries -/

/-- The instructions define the temporaries that were taken from the supply, each once and in
    order. -/
def Numbered (l : Lowering) : Prop :=
  l.instrs.map Instr.dst = (List.range l.supply.temps).map Temp.mk

theorem numbered_start : Numbered start := rfl

theorem Numbered.append {l : Lowering} (h : Numbered l) (o : Operation) :
    Numbered (l.append o).2 := by
  show (l.instrs ++ [Instr.mk ⟨l.supply.temps⟩ o]).map Instr.dst
    = (List.range (l.supply.temps + 1)).map Temp.mk
  rw [List.map_append, h, List.range_succ, List.map_append]
  rfl

theorem Numbered.lower {l : Lowering} (h : Numbered l) (share : Bool) (e : Expr) :
    Numbered (Lowering.lower share e l).2 :=
  lower_induct (P := Numbered) (fun _ o hl => hl.append o) share e h

/-- No two instructions define one temporary, as they are numbered in order. -/
theorem Numbered.nodup {l : Lowering} (h : Numbered l) : (l.instrs.map Instr.dst).Nodup := by
  rw [h]
  refine List.Nodup.map ?_ List.nodup_range
  intro a b hab
  exact congrArg Temp.index hab

theorem Numbered.index_lt {l : Lowering} (h : Numbered l) {i : Instr} (hi : i ∈ l.instrs) :
    i.dst.index < l.supply.temps := by
  have hdst : i.dst ∈ (List.range l.supply.temps).map Temp.mk := h ▸ List.mem_map_of_mem hi
  obtain ⟨n, hn, he⟩ := List.mem_map.mp hdst
  rw [← he]
  exact List.mem_range.mp hn

/-- An emission takes at most one temporary, and none if the value is shared. -/
theorem temps_emit_le (l : Lowering) (share : Bool) (o : Operation) :
    (l.emit share o).2.supply.temps ≤ l.supply.temps + 1 := by
  rcases emit_cases l share o with ⟨t, he, _⟩ | he
  · rw [he]; exact Nat.le_succ _
  · rw [he]; exact Nat.le_refl _

/-- A tree takes at most one temporary a node. -/
theorem temps_lower_le (share : Bool) (e : Expr) :
    ∀ l, (lower share e l).2.supply.temps ≤ l.supply.temps + e.size := by
  induction e with
  | const v => intro l; exact temps_emit_le l share _
  | point p => intro l; exact temps_emit_le l true _
  | binary op lhs rhs ihl ihr =>
    intro l
    have hl := ihl l
    have hr := ihr (lower share lhs l).2
    have ho := temps_emit_le (lower share rhs (lower share lhs l).2).2 share
      (.binary op (lower share lhs l).1 (lower share rhs (lower share lhs l).2).1)
    simp only [lower, Expr.size]
    omega

/-! ## The constants -/

/-- An emission leaves an instruction for the operation. -/
theorem mem_instrs_emit (l : Lowering) (share : Bool) (o : Operation) :
    ∃ t, ⟨t, o⟩ ∈ (l.emit share o).2.instrs := by
  rcases emit_cases l share o with ⟨t, he, hmem⟩ | he
  · rw [he]; exact ⟨t, hmem⟩
  · rw [he]; exact ⟨⟨l.supply.temps⟩, List.mem_append_right _ (List.mem_singleton.mpr rfl)⟩

/-- Appending keeps the instructions. -/
theorem mem_instrs_append {i : Instr} (l : Lowering) (o : Operation) (hi : i ∈ l.instrs) :
    i ∈ (l.append o).2.instrs :=
  List.mem_append_left _ hi

/-- Every constant of a tree has an instruction of its own word. -/
theorem const_mem_instrs (share : Bool) {v : Double} (e : Expr) :
    ∀ l, Expr.const v ∈ e.subtrees → ∃ t, ⟨t, .const v⟩ ∈ (lower share e l).2.instrs := by
  induction e with
  | const w =>
    intro l hv
    have he : Expr.const v = Expr.const w := List.mem_singleton.mp hv
    injection he with he
    subst he
    exact mem_instrs_emit l share _
  | point p => intro l hv; exact absurd (List.mem_singleton.mp hv) (by simp)
  | binary op lhs rhs ihl ihr =>
    intro l hv
    have hsub : Expr.const v ∈ lhs.subtrees ++ rhs.subtrees := by
      rcases List.mem_cons.mp hv with he | he
      · exact absurd he (by simp)
      · exact he
    -- what the left operand needs is there when the right one is lowered, and stays
    rcases List.mem_append.mp hsub with hl | hr
    · obtain ⟨t, ht⟩ := ihl l hl
      exact ⟨t, emit_induct mem_instrs_append (lower_induct mem_instrs_append share rhs ht) share _⟩
    · obtain ⟨t, ht⟩ := ihr _ hr
      exact ⟨t, emit_induct mem_instrs_append ht share _⟩

end Lowering

/-! ## Kernels -/

namespace Equation

variable {e : Equation} {index : Nat} {share : Bool} {k : Kernel}

/-- The kernel that lowering the right-hand side from nothing gives. -/
def kernel (e : Equation) (index : Nat) (share : Bool) : Kernel :=
  ⟨index, e, (Lowering.lower share e.rhs .start).2.instrs, (Lowering.lower share e.rhs .start).1⟩

/-- An equation that divides by no zero has that kernel. -/
theorem lower_eq_kernel (h : e.rhs.zeroDivision? = none) (index : Nat) (share : Bool) :
    e.lower index share = .ok (e.kernel index share) := by
  simp only [lower, h]
  rfl

/-- An equation has no other kernel. -/
theorem eq_kernel_of_lower (h : e.lower index share = .ok k) : k = e.kernel index share := by
  cases hz : e.rhs.zeroDivision? with
  | some err =>
    simp only [lower, hz] at h
    exact absurd h (by simp)
  | none =>
    rw [lower_eq_kernel hz] at h
    injection h with h
    exact h.symm

/-- A kernel runs to its end and leaves the value of the right-hand side. -/
theorem execute_kernel (e : Equation) (index : Nat) (share : Bool) (I : Interpretation V)
    (read : Point → V) :
    ∃ env, I.execute read (e.kernel index share).instrs noTemps = some env
      ∧ env (e.kernel index share).result = some (e.rhs.value I read) := by
  obtain ⟨env, hruns, _, hval, _⟩ :=
    (Lowering.runs_start : Lowering.Runs I read .start noTemps).lower share e.rhs
  exact ⟨env, hruns.run, hval⟩

theorem value?_kernel (e : Equation) (index : Nat) (share : Bool) (I : Interpretation V)
    (read : Point → V) : (e.kernel index share).value? I read = some (e.rhs.value I read) := by
  obtain ⟨env, hrun, hval⟩ := e.execute_kernel index share I read
  rw [Kernel.value?, hrun]
  exact hval

/-- Constants of different words get different temporaries, even if they are equal as numbers. -/
theorem const_temps_ne (e : Equation) (index : Nat) (share : Bool) {v w : Double}
    (hv : Expr.const v ∈ e.rhs.subtrees) (hw : Expr.const w ∈ e.rhs.subtrees)
    (hne : v.bits ≠ w.bits) :
    ∃ s t, s ≠ t ∧ ⟨s, .const v⟩ ∈ (e.kernel index share).instrs
      ∧ ⟨t, .const w⟩ ∈ (e.kernel index share).instrs := by
  obtain ⟨s, hs⟩ := Lowering.const_mem_instrs share e.rhs .start hv
  obtain ⟨t, ht⟩ := Lowering.const_mem_instrs share e.rhs .start hw
  refine ⟨s, t, ?_, hs, ht⟩
  intro hst
  have hnodup := (Lowering.numbered_start.lower share e.rhs).nodup
  have heq := List.inj_on_of_nodup_map hnodup hs ht hst
  injection heq with _ heq
  injection heq with heq
  exact hne (congrArg Double.bits heq)

/-- **The kernel of an equation computes its right-hand side.** If the right-hand side divides by no
    zero, the equation has a kernel with shared values and one without. Both store at the left-hand
    side. In every domain of values, and for all values of the points, both run without reading an
    undefined temporary and leave the value of the tree in their result; in the arithmetic of
    doubles this is what evaluation gives. There are at most as many temporaries as nodes, so that a
    32-bit counter numbers them if there are fewer than `2 ^ 32` nodes. Constants of different
    words, such as the two zeros, have a temporary each. -/
theorem lower_computes_rhs (e : Equation) (index : Nat) (h : e.rhs.zeroDivision? = none) :
    ∃ kernel : Bool → Kernel,
      (∀ share, e.lower index share = .ok (kernel share) ∧ (kernel share).store = e.lhs)
      ∧ (∀ (V : Type u) (I : Interpretation V) (read : Point → V) (share : Bool),
          ∃ env, I.execute read (kernel share).instrs noTemps = some env
            ∧ env (kernel share).result = some (e.rhs.value I read))
      ∧ (∀ (V : Type u) (I : Interpretation V) (read : Point → V),
          (kernel true).value? I read = (kernel false).value? I read)
      ∧ (∀ (read : Point → Double) (share : Bool),
          ∃ v, (kernel share).value? .double read = some v ∧ (e.rhs.evaluate read).outcome = .ok v)
      ∧ (∀ share, ∀ i ∈ (kernel share).instrs, i.dst.index < e.rhs.size)
      ∧ (∀ (share : Bool) (v w : Double), Expr.const v ∈ e.rhs.subtrees →
          Expr.const w ∈ e.rhs.subtrees → v.bits ≠ w.bits →
          ∃ s t, s ≠ t ∧ ⟨s, .const v⟩ ∈ (kernel share).instrs
            ∧ ⟨t, .const w⟩ ∈ (kernel share).instrs) := by
  refine ⟨e.kernel index, fun share => ⟨lower_eq_kernel h index share, rfl⟩, ?_, ?_, ?_, ?_, ?_⟩
  · intro V I read share
    exact e.execute_kernel index share I read
  · intro V I read
    rw [value?_kernel, value?_kernel]
  · intro read share
    refine ⟨e.rhs.value .double read, e.value?_kernel index share .double read, ?_⟩
    rw [Expr.evaluate_outcome, h]
  · intro share i hi
    have hlt := (Lowering.numbered_start.lower share e.rhs).index_lt hi
    have hle := Lowering.temps_lower_le share e.rhs .start
    have hzero : Lowering.start.supply.temps = 0 := rfl
    omega
  · intro share v w hv hw hne
    exact e.const_temps_ne index share hv hw hne

/-- `u(t+1, x) EQUALS (((0 * u(t, x)) + (u(t, x) * -0)) + ((0 * u(t, x)) / 2))`: both zeros, a
    product that can be shared, and a division. -/
def twoZeros : Equation :=
  let u : Grid := ⟨"u", [⟨"t", .step⟩, ⟨"x", .domain⟩], by decide⟩
  let now : Expr := .point ⟨u, [0, 0], rfl⟩
  let product : Expr := .binary .mul (.const .zero) now
  let sum : Expr := .binary .add product (.binary .mul now (.const Double.zero.neg))
  ⟨⟨u, [1, 0], rfl⟩, .binary .add sum (.binary .div product (.const ⟨0x4000000000000000⟩)),
    by decide⟩

theorem lower_computes_rhs_twoZeros :
    twoZeros.rhs.zeroDivision? = none
      ∧ ∃ k, twoZeros.lower 0 true = .ok k ∧ k.store = twoZeros.lhs
        ∧ (∀ read : Point → Double, ∃ v, k.value? .double read = some v
            ∧ (twoZeros.rhs.evaluate read).outcome = .ok v)
        ∧ ∃ s t, s ≠ t ∧ ⟨s, .const .zero⟩ ∈ k.instrs ∧ ⟨t, .const Double.zero.neg⟩ ∈ k.instrs := by
  have hdiv : twoZeros.rhs.zeroDivision? = none := by decide
  obtain ⟨kernel, hlower, _, _, hdouble, _, hconst⟩ := lower_computes_rhs.{0} twoZeros 0 hdiv
  refine ⟨hdiv, kernel true, (hlower true).1, (hlower true).2, fun read => hdouble read true, ?_⟩
  exact hconst true .zero Double.zero.neg (by decide) (by decide) (by decide)

end Equation

end Stencil
