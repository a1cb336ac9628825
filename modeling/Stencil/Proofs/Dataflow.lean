import Mathlib
import Stencil.Format.Graph
import Stencil.Proofs.WellFormed

/-!
# Dataflow graphs have no cycles

An equation by itself is a tree. But a point has one node in the whole graph, so a path can leave an
equation where it writes a point and enter another one that reads it, and so on for any number of
equations.

Every node has a *rank*, and every arrow goes up: first counts the step, that of a point or that
which an equation writes, and a point without a step comes before all of them. Within a step the
nodes of an equation go up in the reverse order of their numbers, and the points come last. Arrows
from an operand go up by the numbers, or by the step if the operand is a point, since equations are
causal. `Builder.Ranked` says this of the graph so far, for some ranks; every addition extends them.

The ranks are not computed. A new node gets whatever rank its place asks for, which is possible
because no node before it has its number (`Ranked.fresh`), and the ranks of all earlier nodes stay.
What an induction over the building of the graph carries is therefore that there are ranks, and that
they extend those before (`Builder.Later`).

The other half of the statement is that the graph has the flows it should have: a graph without
edges would have no cycles either. A builder only ever adds (`Builder.Grows`), so that the path from
a point to the point written with it is there from the moment its equation is
(`carries_addEquation`).
-/

namespace Stencil.Graph

/-! ## Ranks -/

/-- A step, and a place within it. -/
abbrev Rank := WithBot Int ×ₗ Int

/-- The step of a point, below all steps if it has none. -/
def stepRank (p : Point) : WithBot Int :=
  match p.stepOffset? with
  | some o => (o.toInt : WithBot Int)
  | none => ⊥

/-- Points come last in their step. -/
def pointRank (p : Point) : Rank := toLex (stepRank p, 0)

/-- The nodes of an equation that writes the given step come in the reverse order of their
    numbers. -/
def vertexRank (step : WithBot Int) (index : Nat) : Rank := toLex (step, -(index : Int) - 1)

/-- Within an equation the later of two nodes is the lower one: operands are built after what uses
    them. -/
theorem vertexRank_lt {step : WithBot Int} {i j : Nat} (h : j < i) :
    vertexRank step i < vertexRank step j := by
  rw [vertexRank, vertexRank, Prod.Lex.toLex_lt_toLex]
  exact Or.inr ⟨rfl, by simp only; omega⟩

/-- The nodes of an equation are below the point that it writes. -/
theorem vertexRank_lt_pointRank (p : Point) (i : Nat) :
    vertexRank (stepRank p) i < pointRank p := by
  rw [vertexRank, pointRank, Prod.Lex.toLex_lt_toLex]
  exact Or.inr ⟨rfl, by simp only; omega⟩

/-- A point of an earlier step is below all nodes of an equation of a later step. -/
theorem pointRank_lt_vertexRank {p : Point} {step : WithBot Int} (h : stepRank p < step)
    (i : Nat) : pointRank p < vertexRank step i := by
  rw [vertexRank, pointRank, Prod.Lex.toLex_lt_toLex]
  exact Or.inl h

/-- What an equation reads comes before the step that it writes. -/
theorem stepRank_lt (e : Equation) {p : Point} (hp : p ∈ e.rhs.points) :
    stepRank p < stepRank e.lhs := by
  obtain ⟨l, hl, hlater⟩ := e.causal
  simp only [stepRank, hl]
  cases hr : p.stepOffset? with
  | none => exact WithBot.bot_lt_coe _
  | some r => exact WithBot.coe_lt_coe.mpr (hlater p hp r hr)

/-! ## Ranked graphs -/

namespace Builder

/-- The nodes in use have ranks: points their own, and every edge goes up. -/
structure Ranked (b : Builder) (rank : NodeId → Rank) : Prop where
  points : ∀ v ∈ b.points, v.id.index < b.supply.nodes ∧ rank v.id = pointRank v.point
  edges : ∀ e ∈ b.edges, e.source.index < b.supply.nodes ∧ e.target.index < b.supply.nodes
    ∧ rank e.source < rank e.target

/-- The second graph is the first one with additions, and its nodes keep their ranks. -/
structure Later (b : Builder) (rank : NodeId → Rank) (b' : Builder) (rank' : NodeId → Rank) :
    Prop where
  ranked : b'.Ranked rank'
  supply : b.supply.nodes ≤ b'.supply.nodes
  keeps : ∀ n, n.index < b.supply.nodes → rank' n = rank n

variable {b b' b'' : Builder} {rank rank' rank'' : NodeId → Rank}

theorem Ranked.refl (h : b.Ranked rank) : b.Later rank b rank := ⟨h, Nat.le_refl _, fun _ _ => rfl⟩

/-- Extending ranks twice is extending them: each time the nodes that were there keep theirs. -/
theorem Later.trans (h : b.Later rank b' rank') (h' : b'.Later rank' b'' rank'') :
    b.Later rank b'' rank'' where
  ranked := h'.ranked
  supply := Nat.le_trans h.supply h'.supply
  keeps := fun n hn => (h'.keeps n (Nat.lt_of_lt_of_le hn h.supply)).trans (h.keeps n hn)

theorem start_ranked (rank : NodeId → Rank) : start.Ranked rank :=
  ⟨fun _ hv => absurd hv List.not_mem_nil, fun _ he => absurd he List.not_mem_nil⟩

/-- A new node may have any rank, because no edge has its number yet. -/
theorem Ranked.fresh (h : b.Ranked rank) (r : Rank) (points : List PointVertex)
    (vertices : List Vertex)
    (hpoints : ∀ v ∈ points, v ∈ b.points ∨ (v.id = ⟨b.supply.nodes⟩ ∧ r = pointRank v.point)) :
    b.Later rank ⟨b.supply.takeNode.2, points, vertices, b.edges⟩
      (Function.update rank ⟨b.supply.nodes⟩ r) := by
  have hold : ∀ n : NodeId, n.index < b.supply.nodes →
      Function.update rank ⟨b.supply.nodes⟩ r n = rank n := by
    intro n hn
    refine Function.update_of_ne ?_ _ _
    rintro rfl
    exact Nat.lt_irrefl _ hn
  refine ⟨⟨?_, ?_⟩, Nat.le_succ _, hold⟩
  · intro v hv
    rcases hpoints v hv with hv | ⟨hid, hr⟩
    · obtain ⟨hlt, hrank⟩ := h.points v hv
      exact ⟨Nat.lt_succ_of_lt hlt, (hold _ hlt).trans hrank⟩
    · rw [hid, Function.update_self]
      exact ⟨Nat.lt_succ_self _, hr⟩
  · intro e he
    obtain ⟨hs, ht, hlt⟩ := h.edges e he
    rw [hold _ hs, hold _ ht]
    exact ⟨Nat.lt_succ_of_lt hs, Nat.lt_succ_of_lt ht, hlt⟩

/-- A new node of an equation gets the rank that is asked for. -/
theorem Ranked.addVertex (h : b.Ranked rank) (label : Label) (r : Rank) :
    ∃ rank', b.Later rank (b.addVertex label).2 rank' ∧ rank' (b.addVertex label).1 = r :=
  ⟨_, h.fresh r _ _ (fun _ hv => Or.inl hv), Function.update_self _ _ _⟩

/-- The node of a point is in use and has the point's rank. -/
theorem Ranked.pointNode (h : b.Ranked rank) (p : Point) :
    ∃ rank', b.Later rank (b.pointNode p).2 rank'
      ∧ (b.pointNode p).1.index < (b.pointNode p).2.supply.nodes
      ∧ rank' (b.pointNode p).1 = pointRank p := by
  unfold Builder.pointNode
  cases hfind : b.points.find? (·.point == p) with
  | some v =>
    have hpoint : v.point = p := by simpa using List.find?_some hfind
    obtain ⟨hlt, hrank⟩ := h.points v (List.mem_of_find?_eq_some hfind)
    exact ⟨rank, h.refl, hlt, by rw [← hpoint]; exact hrank⟩
  | none =>
    refine ⟨_, h.fresh (pointRank p) _ _ ?_, Nat.lt_succ_self _, Function.update_self _ _ _⟩
    intro v hv
    rcases List.mem_append.mp hv with hv | hv
    · exact Or.inl hv
    · rw [List.mem_singleton.mp hv]
      exact Or.inr ⟨rfl, rfl⟩

theorem Ranked.addEdge (h : b.Ranked rank) {source target : NodeId}
    (hs : source.index < b.supply.nodes) (ht : target.index < b.supply.nodes)
    (hlt : rank source < rank target) : b.Later rank (b.addEdge source target) rank := by
  refine ⟨⟨h.points, ?_⟩, Nat.le_refl _, fun _ _ => rfl⟩
  intro e he
  rcases List.mem_append.mp he with he | he
  · exact h.edges e he
  · rw [List.mem_singleton.mp he]
    exact ⟨hs, ht, hlt⟩

/-! ### Operands -/

/-- The graph with the nodes of an expression, and the flow from it into a node. -/
def feed (b : Builder) (e : Expr) (target : NodeId) : Builder :=
  (visit e b).2.addEdge (visit e b).1 target

/-- An operator is entered before its operands, and each operand feeds it as soon as it is built. -/
theorem visit_binary (op : Operator) (lhs rhs : Expr) (b : Builder) :
    visit (.binary op lhs rhs) b
      = (⟨b.supply.nodes⟩, ((b.addVertex (.operator op)).2.feed lhs ⟨b.supply.nodes⟩).feed rhs
          ⟨b.supply.nodes⟩) := rfl

/-- The graph with an equation's EQUALS node. -/
def withEquals (b : Builder) : Builder := (({ b with vertices := [] } : Builder).addVertex .equals).2

/-- The graph with an equation's EQUALS node and the flow into the point that it writes. -/
def withTarget (b : Builder) (e : Equation) : Builder :=
  (b.withEquals.pointNode e.lhs).2.addEdge ⟨b.supply.nodes⟩ (b.withEquals.pointNode e.lhs).1

/-- An equation is its EQUALS node with the point that it writes, fed by its right side. -/
theorem addEquation_snd (b : Builder) (index : Nat) (e : Equation) :
    (b.addEquation index e).2 = (b.withTarget e).feed e.rhs ⟨b.supply.nodes⟩ := rfl

/-- The node of an expression comes before every node that the equation had so far. -/
def Descends (step : WithBot Int) (e : Expr) : Prop :=
  ∀ (b : Builder) (rank : NodeId → Rank), b.Ranked rank →
    ∃ rank', b.Later rank (visit e b).2 rank'
      ∧ (visit e b).1.index < (visit e b).2.supply.nodes
      ∧ ∀ i < b.supply.nodes, rank' (visit e b).1 < vertexRank step i

/-- What feeds a node is below it, if the expression stays below the step that is written. -/
theorem Descends.feed {step : WithBot Int} {e : Expr} (he : Descends step e) (h : b.Ranked rank)
    {i : Nat} (hi : i < b.supply.nodes) (hrank : rank ⟨i⟩ = vertexRank step i) :
    ∃ rank', b.Later rank (b.feed e ⟨i⟩) rank' ∧ rank' ⟨i⟩ = vertexRank step i := by
  obtain ⟨rank', hlater, hlt, hbelow⟩ := he b rank h
  have hkeep : rank' ⟨i⟩ = vertexRank step i := (hlater.keeps ⟨i⟩ hi).trans hrank
  have hup : rank' (Builder.visit e b).1 < rank' ⟨i⟩ := by
    rw [hkeep]
    exact hbelow i hi
  have hedge := hlater.ranked.addEdge hlt (Nat.lt_of_lt_of_le hi hlater.supply) hup
  exact ⟨rank', hlater.trans hedge, hkeep⟩

/-- **An expression's node** comes before every node that the equation had so far, if the points it
    reads come before the step that is written. -/
theorem descends {step : WithBot Int} (e : Expr) :
    (∀ p ∈ e.points, stepRank p < step) → Descends step e := by
  induction e with
  | const v =>
    intro _ b rank h
    obtain ⟨rank', hlater, hrank⟩ := h.addVertex (.const v) (vertexRank step b.supply.nodes)
    refine ⟨rank', hlater, Nat.lt_succ_self _, fun i hi => ?_⟩
    rw [show rank' (visit (.const v) b).1 = _ from hrank]
    exact vertexRank_lt hi
  | point p =>
    intro hp b rank h
    obtain ⟨rank', hlater, hlt, hrank⟩ := h.pointNode p
    refine ⟨rank', hlater, hlt, fun i _ => ?_⟩
    rw [show rank' (visit (.point p) b).1 = _ from hrank]
    exact pointRank_lt_vertexRank (hp p (by simp [Expr.points])) i
  | binary op lhs rhs ihl ihr =>
    intro hp b rank h
    have hleft := ihl fun p hmem => hp p (List.mem_append_left _ hmem)
    have hright := ihr fun p hmem => hp p (List.mem_append_right _ hmem)
    -- the operator's node is numbered first, so both operands come before it
    obtain ⟨rank₁, hlater₁, hrank₁⟩ :=
      h.addVertex (.operator op) (vertexRank step b.supply.nodes)
    have hid : b.supply.nodes < (b.addVertex (.operator op)).2.supply.nodes := Nat.lt_succ_self _
    obtain ⟨rank₂, hlater₂, hrank₂⟩ := hleft.feed hlater₁.ranked hid hrank₁
    have hid₂ := Nat.lt_of_lt_of_le hid hlater₂.supply
    obtain ⟨rank₃, hlater₃, hrank₃⟩ := hright.feed hlater₂.ranked hid₂ hrank₂
    rw [visit_binary]
    refine ⟨rank₃, (hlater₁.trans hlater₂).trans hlater₃, ?_, fun i hi => ?_⟩
    · exact Nat.lt_of_lt_of_le hid₂ hlater₃.supply
    · rw [hrank₃]
      exact vertexRank_lt hi

/-- **One more equation** extends the ranks, because whatever it reads is of an earlier step than
    what it writes. -/
theorem Ranked.addEquation (h : b.Ranked rank) (index : Nat) (e : Equation) :
    ∃ rank', (b.addEquation index e).2.Ranked rank' := by
  have h₀ : ({ b with vertices := [] } : Builder).Ranked rank := ⟨h.points, h.edges⟩
  obtain ⟨rank₁, hlater₁, hrank₁⟩ :=
    h₀.addVertex .equals (vertexRank (stepRank e.lhs) b.supply.nodes)
  have h₁ : b.withEquals.Ranked rank₁ := hlater₁.ranked
  obtain ⟨rank₂, hlater₂, hlt₂, hpoint⟩ := h₁.pointNode e.lhs
  have hid₁ : b.supply.nodes < b.withEquals.supply.nodes := Nat.lt_succ_self _
  have hid₂ := Nat.lt_of_lt_of_le hid₁ hlater₂.supply
  have hrank₂ : rank₂ ⟨b.supply.nodes⟩ = vertexRank (stepRank e.lhs) b.supply.nodes :=
    (hlater₂.keeps _ hid₁).trans hrank₁
  have hwrite : rank₂ ⟨b.supply.nodes⟩ < rank₂ (b.withEquals.pointNode e.lhs).1 := by
    rw [hrank₂, hpoint]
    exact vertexRank_lt_pointRank e.lhs _
  have hedge : (b.withTarget e).Ranked rank₂ := (hlater₂.ranked.addEdge hid₂ hlt₂ hwrite).ranked
  have hrhs := descends e.rhs fun p hp => stepRank_lt e hp
  obtain ⟨rank₃, hlater₃, _⟩ := hrhs.feed hedge hid₂ hrank₂
  exact ⟨rank₃, hlater₃.ranked⟩

/-- **The run**: after any number of equations there are ranks along which all edges go up. -/
theorem Ranked.addEquations (es : List Equation) :
    ∀ {b : Builder} {rank : NodeId → Rank} (index : Nat), b.Ranked rank →
      ∃ rank', (b.addEquations index es).2.Ranked rank' := by
  induction es with
  | nil => intro b rank index h; exact ⟨rank, h⟩
  | cons e es ih =>
    intro b rank index h
    obtain ⟨rank₁, hranked⟩ := h.addEquation index e
    exact ih (index + 1) hranked

/-! ## Flows -/

/-- A flow of the graph so far. -/
def Flow (b : Builder) (m n : NodeId) : Prop := ⟨m, n⟩ ∈ b.edges

/-- The second graph is the first one with additions, and does not give a point a second node. -/
structure Grows (b b' : Builder) : Prop where
  points : b.points ⊆ b'.points
  edges : b.edges ⊆ b'.edges
  shared : (b.points.map PointVertex.point).Nodup → (b'.points.map PointVertex.point).Nodup

theorem Grows.refl (b : Builder) : b.Grows b := ⟨fun _ h => h, fun _ h => h, fun h => h⟩

theorem Grows.trans (h : b.Grows b') (h' : b'.Grows b'') : b.Grows b'' :=
  ⟨fun _ hv => h'.points (h.points hv), fun _ he => h'.edges (h.edges he),
    fun hb => h'.shared (h.shared hb)⟩

/-- A path stays a path while the graph grows. -/
theorem Grows.path (h : b.Grows b') {m n : NodeId} (hpath : Relation.ReflTransGen b.Flow m n) :
    Relation.ReflTransGen b'.Flow m n :=
  Relation.ReflTransGen.mono (fun _ _ he => h.edges he) _ _ hpath

theorem grows_addVertex (b : Builder) (label : Label) : b.Grows (b.addVertex label).2 :=
  ⟨fun _ h => h, fun _ h => h, fun h => h⟩

theorem grows_addEdge (b : Builder) (source target : NodeId) :
    b.Grows (b.addEdge source target) :=
  ⟨fun _ h => h, fun _ h => List.mem_append_left _ h, fun h => h⟩

theorem flow_addEdge (b : Builder) (source target : NodeId) :
    (b.addEdge source target).Flow source target :=
  List.mem_append_right _ (List.mem_singleton.mpr rfl)

theorem grows_pointNode (b : Builder) (p : Point) : b.Grows (b.pointNode p).2 := by
  unfold Builder.pointNode
  cases hfind : b.points.find? (·.point == p) with
  | some v => exact Grows.refl b
  | none =>
    refine ⟨fun _ h => List.mem_append_left _ h, fun _ h => h, fun h => ?_⟩
    have hnew : p ∉ b.points.map PointVertex.point := by
      intro hmem
      obtain ⟨v, hv, hpoint⟩ := List.mem_map.mp hmem
      exact List.find?_eq_none.mp hfind v hv (by simpa using hpoint)
    show ((b.points ++ [_]).map PointVertex.point).Nodup
    rw [List.map_append, List.map_singleton, List.nodup_append]
    refine ⟨h, List.nodup_singleton _, fun q hq q' hq' heq => ?_⟩
    rw [heq, List.mem_singleton.mp hq'] at hq
    exact hnew hq

/-- A point has the node that it is given. -/
theorem mem_points_pointNode (b : Builder) (p : Point) :
    ⟨(b.pointNode p).1, p⟩ ∈ (b.pointNode p).2.points := by
  unfold Builder.pointNode
  cases hfind : b.points.find? (·.point == p) with
  | some v =>
    have hpoint : v.point = p := by simpa using List.find?_some hfind
    rw [← hpoint]
    exact List.mem_of_find?_eq_some hfind
  | none => exact List.mem_append_right _ (List.mem_singleton.mpr rfl)

theorem Grows.feed {e : Expr} (h : b.Grows (visit e b).2) (target : NodeId) :
    b.Grows (b.feed e target) :=
  h.trans (grows_addEdge _ _ target)

/-- Building an expression only adds: by induction on the expression, for any graph so far. -/
theorem grows_visit (e : Expr) : ∀ b : Builder, b.Grows (visit e b).2 := by
  induction e with
  | const v => intro b; exact grows_addVertex b _
  | point p => intro b; exact grows_pointNode b p
  | binary op lhs rhs ihl ihr =>
    intro b
    rw [visit_binary]
    exact ((grows_addVertex b (.operator op)).trans ((ihl _).feed _)).trans ((ihr _).feed _)

theorem grows_feed (b : Builder) (e : Expr) (target : NodeId) : b.Grows (b.feed e target) :=
  (grows_visit e b).feed target

/-- **What an expression reads flows into its node.** -/
theorem flow_visit (e : Expr) : ∀ b : Builder, ∀ p ∈ e.points,
    ∃ v ∈ (visit e b).2.points, v.point = p
      ∧ Relation.ReflTransGen (visit e b).2.Flow v.id (visit e b).1 := by
  induction e with
  | const v => intro b p hp; exact absurd hp List.not_mem_nil
  | point q =>
    intro b p hp
    rw [List.mem_singleton.mp hp]
    exact ⟨_, mem_points_pointNode b q, rfl, .refl⟩
  | binary op lhs rhs ihl ihr =>
    intro b p hp
    rw [visit_binary]
    rcases List.mem_append.mp hp with hp | hp
    · obtain ⟨v, hv, hpoint, hpath⟩ := ihl (b.addVertex (.operator op)).2 p hp
      have hgrows := grows_feed ((b.addVertex (.operator op)).2.feed lhs ⟨b.supply.nodes⟩) rhs
        ⟨b.supply.nodes⟩
      have hleft := ((grows_addEdge _ _ ⟨b.supply.nodes⟩).path hpath).tail (flow_addEdge _ _ _)
      exact ⟨v, hgrows.points hv, hpoint, hgrows.path hleft⟩
    · obtain ⟨v, hv, hpoint, hpath⟩ :=
        ihr ((b.addVertex (.operator op)).2.feed lhs ⟨b.supply.nodes⟩) p hp
      have hright := ((grows_addEdge _ _ ⟨b.supply.nodes⟩).path hpath).tail (flow_addEdge _ _ _)
      exact ⟨v, hv, hpoint, hright⟩

/-- Every point of an expression flows to the node that the expression feeds. -/
theorem flow_feed (b : Builder) (e : Expr) (target : NodeId) {p : Point} (hp : p ∈ e.points) :
    ∃ v ∈ (b.feed e target).points, v.point = p
      ∧ Relation.TransGen (b.feed e target).Flow v.id target := by
  obtain ⟨v, hv, hpoint, hpath⟩ := flow_visit e b p hp
  have hroot := (grows_addEdge _ (visit e b).1 target).path hpath
  exact ⟨v, hv, hpoint, Relation.TransGen.tail' hroot (flow_addEdge _ _ _)⟩

theorem grows_withTarget (b : Builder) (e : Equation) : b.Grows (b.withTarget e) := by
  have hvertex : b.Grows b.withEquals := ⟨fun _ h => h, fun _ h => h, fun h => h⟩
  exact (hvertex.trans (grows_pointNode _ e.lhs)).trans (grows_addEdge _ _ _)

theorem grows_addEquation (b : Builder) (index : Nat) (e : Equation) :
    b.Grows (b.addEquation index e).2 := by
  rw [addEquation_snd]
  exact (grows_withTarget b e).trans (grows_feed _ _ _)

/-- The points of the equation have nodes, and what it reads flows into what it writes. -/
def Carries (b : Builder) (e : Equation) : Prop :=
  ∀ p ∈ e.rhs.points, ∃ v ∈ b.points, ∃ w ∈ b.points,
    v.point = p ∧ w.point = e.lhs ∧ Relation.TransGen b.Flow v.id w.id

/-- Once an equation is added, all points that it reads flow to the point that it writes. -/
theorem carries_addEquation (b : Builder) (index : Nat) (e : Equation) :
    (b.addEquation index e).2.Carries e := by
  intro p hp
  rw [addEquation_snd]
  obtain ⟨v, hv, hpoint, hpath⟩ := flow_feed (b.withTarget e) e.rhs ⟨b.supply.nodes⟩ hp
  obtain ⟨w, hw, hlhs, hwrite⟩ : ∃ w ∈ (b.withTarget e).points, w.point = e.lhs
      ∧ (b.withTarget e).Flow ⟨b.supply.nodes⟩ w.id :=
    ⟨_, mem_points_pointNode _ e.lhs, rfl, flow_addEdge _ _ _⟩
  have hgrows := grows_feed (b.withTarget e) e.rhs ⟨b.supply.nodes⟩
  exact ⟨v, hv, w, hgrows.points hw, hpoint, hlhs, hpath.tail (hgrows.edges hwrite)⟩

theorem Carries.grows {e : Equation} (h : b.Carries e) (hb : b.Grows b') : b'.Carries e := by
  intro p hp
  obtain ⟨v, hv, w, hw, hpoint, hlhs, hpath⟩ := h p hp
  exact ⟨v, hb.points hv, w, hb.points hw, hpoint, hlhs,
    Relation.TransGen.mono (fun _ _ he => hb.edges he) _ _ hpath⟩

theorem grows_addEquations (es : List Equation) :
    ∀ (b : Builder) (index : Nat), b.Grows (b.addEquations index es).2 := by
  induction es with
  | nil => intro b index; exact Grows.refl b
  | cons e es ih => intro b index; exact (grows_addEquation b index e).trans (ih _ _)

/-- **The run**: no equation loses its flows to those that are added later. -/
theorem carries_addEquations (es : List Equation) :
    ∀ (b : Builder) (index : Nat), ∀ e ∈ es, (b.addEquations index es).2.Carries e := by
  induction es with
  | nil => intro b index e he; exact absurd he List.not_mem_nil
  | cons e es ih =>
    intro b index e' he'
    rcases List.mem_cons.mp he' with rfl | he'
    · exact (carries_addEquation b index e').grows (grows_addEquations es _ _)
    · exact ih _ _ e' he'

end Builder

/-! ## The drawn graph -/

/-- An arrow of the drawn graph, between the names of two nodes: a flow, or the tie of a point to
    its grid. -/
inductive Arrow (g : Graph) : String → String → Prop where
  | flow {e : Edge} (h : e ∈ g.edges) : Arrow g e.source.text e.target.text
  | storage {v : PointVertex} (h : v ∈ g.points) : Arrow g v.id.text (gridNode v.point.grid)

theorem text_injective : Function.Injective NodeId.text := by
  intro m n h
  have hrepr : m.index.repr = n.index.repr := (String.append_right_inj "n").mp h
  cases m; cases n
  simpa using Nat.repr_injective hrepr

/-- The nodes of grids have names of their own. -/
theorem text_ne_gridNode (n : NodeId) (g : Grid) : n.text ≠ gridNode g := by
  intro h
  have hlist := congrArg String.toList h
  simp [NodeId.text, gridNode] at hlist

/-- A path starts at a node that is no grid's. It goes up, unless it ends in a grid. -/
theorem Arrow.path_up {g : Graph} {rank : NodeId → Rank}
    (hrank : ∀ e ∈ g.edges, rank e.source < rank e.target) {x y : String}
    (h : Relation.TransGen g.Arrow x y) :
    ∃ m : NodeId, x = m.text
      ∧ ((∃ n : NodeId, y = n.text ∧ rank m < rank n) ∨ ∃ grid, y = gridNode grid) := by
  induction h with
  | single harrow =>
    cases harrow with
    | flow he => exact ⟨_, rfl, Or.inl ⟨_, rfl, hrank _ he⟩⟩
    | storage hv => exact ⟨_, rfl, Or.inr ⟨_, rfl⟩⟩
  | tail _ harrow ih =>
    obtain ⟨m, hx, hend⟩ := ih
    refine ⟨m, hx, ?_⟩
    cases harrow with
    | @flow e he =>
      rcases hend with ⟨n, hn, hlt⟩ | ⟨grid, hgrid⟩
      · rw [← text_injective hn] at hlt
        exact Or.inl ⟨_, rfl, hlt.trans (hrank e he)⟩
      · exact absurd hgrid (text_ne_gridNode _ _)
    | storage hv => exact Or.inr ⟨_, rfl⟩

end Stencil.Graph

namespace Stencil

/-- **The dataflow graph of a solution has no cycle**, grids included, though each point has one
    node for all equations and every point that an equation reads flows into the one it writes. -/
theorem Solution.graph_acyclic (s : Solution) :
    (∀ node, ¬ Relation.TransGen s.graph.Arrow node node)
      ∧ (s.graph.points.map Graph.PointVertex.point).Nodup
      ∧ ∀ e ∈ s.equations, ∀ p ∈ e.rhs.points,
          ∃ v ∈ s.graph.points, ∃ w ∈ s.graph.points, v.point = p ∧ w.point = e.lhs
            ∧ Relation.TransGen s.graph.Arrow v.id.text w.id.text := by
  refine ⟨?_, ?_, ?_⟩
  · intro node hcycle
    obtain ⟨rank, hranked⟩ :=
      (Graph.Builder.start_ranked fun _ => toLex (⊥, 0)).addEquations s.equations 0
    -- a path ends at a node of higher rank than its first one, or at a grid, which no arrow leaves
    obtain ⟨m, hm, ⟨n, hn, hlt⟩ | ⟨grid, hgrid⟩⟩ :=
      Graph.Arrow.path_up (fun e he => (hranked.edges e he).2.2) hcycle
    · rw [Graph.text_injective (hm.symm.trans hn)] at hlt
      exact lt_irrefl _ hlt
    · exact Graph.text_ne_gridNode m grid (hm.symm.trans hgrid)
  · exact (Graph.Builder.grows_addEquations s.equations .start 0).shared List.nodup_nil
  · intro e he p hp
    -- the path of the builder is one of arrows between the names of its nodes
    obtain ⟨v, hv, w, hw, hpoint, hlhs, hpath⟩ :=
      Graph.Builder.carries_addEquations s.equations .start 0 e he p hp
    refine ⟨v, hv, w, hw, hpoint, hlhs, ?_⟩
    exact Relation.TransGen.lift NodeId.text
      (fun m n (he : (⟨m, n⟩ : Graph.Edge) ∈ s.graph.edges) => Graph.Arrow.flow he) _ _ hpath

end Stencil
