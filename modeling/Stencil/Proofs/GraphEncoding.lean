import Mathlib
import Stencil.Proofs.Dataflow
import Stencil.Proofs.DotReading
import Stencil.Proofs.Interpretation
import Stencil.Proofs.Validity

/-!
# Dataflow graphs encode the equations

The equations can be read off the graph of a solution. From the EQUALS node of an equation one edge
goes to the point that is written, and one comes from the root of the right-hand side; following the
edges back from the root, the first one into an operator for its left operand and the second one for
its right operand, gives the right-hand side (`Unfolds`).

Three things are kept while a graph is built.

* `Sound`: the nodes are numbered in order, each for one thing, and edges join nodes.
* `Keeps`: what is added joins new nodes and points only. The edges at a node of an equation are
  therefore settled once the equation is there, however many equations follow.
* Points have a node each, in the order in which they first occur (`points_visit`).

A builder has one supply of numbers for everything, and two tables: the nodes of the equation at
hand, which start afresh with every equation, and those of the points, which stay. `Sound` therefore
speaks of the nodes of earlier equations as well, as a list of its own (`old`). An equation that is
finished goes into that list (`Sound.clear`), and the induction over the equations is on that.

To *own* a node is to have it among the nodes of the equations so far, and not among the points
(`Own`). An edge that is added later is between nodes that are `Foreign` to them: new ones, or
points. So the edges into a node and out of it can be counted when its equation is built (`Draws`),
and the count is that of the finished graph (`Keeps.into_eq`, `Keeps.outOf_eq`).

At the end these facts are carried over to the text: the names of nodes are different
(`Valid.nodup_names`), the document declares them once each (`declared_document`), and reading the
text gives the document.
-/

namespace Stencil

/-- The labels of the nodes that a tree has of its own, its points apart. -/
def Expr.labels : Expr → List Graph.Label
  | const v => [.const v]
  | point _ => []
  | binary op lhs rhs => .operator op :: (lhs.labels ++ rhs.labels)

/-- An expression has a node for every operator and every constant in it, however often they
    occur. -/
theorem Expr.length_labels (e : Expr) :
    e.labels.length = e.subtrees.countP isBinary + e.subtrees.countP isConst := by
  induction e with
  | const v => rfl
  | point p => rfl
  | binary op lhs rhs ihl ihr =>
    simp only [labels, subtrees, List.length_cons, List.length_append, ihl, ihr, List.countP_cons,
      List.countP_append, isBinary, isConst, if_true, Bool.false_eq_true, if_false]
    omega

namespace Graph

/-- The edges into a node, in order. -/
def into (edges : List Edge) (n : NodeId) : List Edge := edges.filter (·.target == n)

/-- The edges out of a node, in order. -/
def outOf (edges : List Edge) (n : NodeId) : List Edge := edges.filter (·.source == n)

/-- The tree that is found by following edges back from a node. A point ends the search. -/
inductive Unfolds (vertices : List Vertex) (points : List PointVertex) (edges : List Edge) :
    NodeId → Expr → Prop where
  | const {n : NodeId} {v : Double} (h : ⟨n, .const v⟩ ∈ vertices) :
    Unfolds vertices points edges n (.const v)
  | point {n : NodeId} {p : Point} (h : ⟨n, p⟩ ∈ points) :
    Unfolds vertices points edges n (.point p)
  | binary {n l r : NodeId} {op : Operator} {lhs rhs : Expr} (h : ⟨n, .operator op⟩ ∈ vertices)
      (hinto : into edges n = [⟨l, n⟩, ⟨r, n⟩]) (hl : Unfolds vertices points edges l lhs)
      (hr : Unfolds vertices points edges r rhs) :
    Unfolds vertices points edges n (.binary op lhs rhs)

/-- Every operator has two edges into it. -/
def Fed (vertices : List Vertex) (edges : List Edge) : Prop :=
  ∀ v ∈ vertices, ∀ op, v.label = .operator op →
    ∃ l r, into edges v.id = [⟨l, v.id⟩, ⟨r, v.id⟩]

variable {vertices vertices' : List Vertex} {points points' : List PointVertex}
  {edges edges' : List Edge}

/-- A tree can still be read off after more has been built, if the edges into the nodes of equations
    are the same. -/
theorem Unfolds.mono {n : NodeId} {e : Expr} (h : Unfolds vertices points edges n e)
    (hvertices : vertices ⊆ vertices') (hpoints : points ⊆ points')
    (hinto : ∀ v ∈ vertices, into edges' v.id = into edges v.id) :
    Unfolds vertices' points' edges' n e := by
  induction h with
  | const h => exact .const (hvertices h)
  | point h => exact .point (hpoints h)
  | binary h hin _ _ ihl ihr => exact .binary (hvertices h) ((hinto _ h).trans hin) ihl ihr

theorem Fed.mono (h : Fed vertices edges)
    (hinto : ∀ v ∈ vertices, into edges' v.id = into edges v.id) : Fed vertices edges' := by
  intro v hv op hop
  rw [hinto v hv]
  exact h v hv op hop

/-- An equation can be read off its cluster: one edge goes from the EQUALS node to the written
    point, one comes from the root of the right-hand side, and the tree at the root is the
    right-hand side. The cluster has no other vertices. -/
def Reads (points : List PointVertex) (edges : List Edge) (c : Cluster) : Prop :=
  ∃ equals target root vs, c.vertices = ⟨equals, .equals⟩ :: vs
    ∧ vs.map Vertex.label = c.equation.rhs.labels
    ∧ outOf edges equals = [⟨equals, target⟩] ∧ ⟨target, c.equation.lhs⟩ ∈ points
    ∧ into edges equals = [⟨root, equals⟩]
    ∧ Unfolds vs points edges root c.equation.rhs
    ∧ Fed vs edges

namespace Builder

/-! ## What is kept -/

/-- A node that is in use and is no point's. -/
def Own (b : Builder) (n : NodeId) : Prop :=
  n.index < b.supply.nodes ∧ n ∉ b.points.map PointVertex.id

/-- A node that is new in the second graph, or a point's. -/
def Foreign (b b' : Builder) (n : NodeId) : Prop :=
  b.supply.nodes ≤ n.index ∨ n ∈ b'.points.map PointVertex.id

/-- The second graph is the first one with additions. Points are new nodes, and edges join new nodes
    and points. -/
structure Keeps (b b' : Builder) : Prop where
  supply : b.supply.nodes ≤ b'.supply.nodes
  points : ∃ ps, b'.points = b.points ++ ps ∧ ∀ v ∈ ps, b.supply.nodes ≤ v.id.index
  edges : ∃ es, b'.edges = b.edges ++ es
    ∧ ∀ e ∈ es, b.Foreign b' e.source ∧ b.Foreign b' e.target

variable {b b' b'' : Builder} {n : NodeId}

theorem Keeps.points_subset (h : b.Keeps b') : b.points ⊆ b'.points := by
  obtain ⟨ps, hps, _⟩ := h.points
  rw [hps]
  exact List.subset_append_left _ _

/-- What is new since a later graph is new since an earlier one, which had given out fewer
    numbers. -/
theorem Foreign.earlier (hn : b'.Foreign b'' n) (h : b.Keeps b') : b.Foreign b'' n :=
  hn.imp_left fun hn => Nat.le_trans h.supply hn

/-- A node stays foreign while the graph grows further, since the node of a point remains one. -/
theorem Foreign.mono (hn : b.Foreign b' n) (h' : b'.Keeps b'') : b.Foreign b'' n :=
  hn.imp_right fun hn => List.map_subset _ h'.points_subset hn

theorem Keeps.refl (b : Builder) : b.Keeps b :=
  ⟨Nat.le_refl _, ⟨[], by simp⟩, ⟨[], by simp⟩⟩

theorem Keeps.trans (h : b.Keeps b') (h' : b'.Keeps b'') : b.Keeps b'' := by
  obtain ⟨ps, hps, hnew⟩ := h.points
  obtain ⟨ps', hps', hnew'⟩ := h'.points
  obtain ⟨es, hes, hjoin⟩ := h.edges
  obtain ⟨es', hes', hjoin'⟩ := h'.edges
  refine ⟨Nat.le_trans h.supply h'.supply, ⟨ps ++ ps', ?_, ?_⟩, ⟨es ++ es', ?_, ?_⟩⟩
  · rw [hps', hps, List.append_assoc]
  · intro v hv
    rcases List.mem_append.mp hv with hv | hv
    · exact hnew v hv
    · exact Nat.le_trans h.supply (hnew' v hv)
  · rw [hes', hes, List.append_assoc]
  · intro e he
    rcases List.mem_append.mp he with he | he
    · exact ⟨(hjoin e he).1.mono h', (hjoin e he).2.mono h'⟩
    · exact ⟨(hjoin' e he).1.earlier h, (hjoin' e he).2.earlier h⟩

/-- A node of an equation stays one, whatever is added later. -/
theorem Own.keeps (hn : b.Own n) (h : b.Keeps b') : b'.Own n := by
  obtain ⟨ps, hps, hnew⟩ := h.points
  refine ⟨Nat.lt_of_lt_of_le hn.1 h.supply, ?_⟩
  rw [hps, List.map_append, List.mem_append]
  rintro (hmem | hmem)
  · exact hn.2 hmem
  · obtain ⟨v, hv, rfl⟩ := List.mem_map.mp hmem
    exact absurd (hnew v hv) (Nat.not_le.mpr hn.1)

/-- What is added does not meet the nodes of the equations that are there. -/
theorem Own.not_foreign (hn : b.Own n) (h : b.Keeps b') : ¬ b.Foreign b' n := by
  rintro (hnew | hpoint)
  · exact Nat.not_le.mpr hn.1 hnew
  · exact (hn.keeps h).2 hpoint

/-- **The edges at a node of an equation are settled**: later on they are the same edges, in the
    same order. -/
theorem Keeps.filter_eq (h : b.Keeps b') (hn : b.Own n) {side : Edge → NodeId}
    (hside : side = Edge.source ∨ side = Edge.target) :
    b'.edges.filter (side · == n) = b.edges.filter (side · == n) := by
  obtain ⟨es, hes, hjoin⟩ := h.edges
  have hnone : es.filter (side · == n) = [] := by
    rw [List.filter_eq_nil_iff]
    intro e he heq
    apply hn.not_foreign h
    rw [← eq_of_beq heq]
    rcases hside with rfl | rfl
    · exact (hjoin e he).1
    · exact (hjoin e he).2
  rw [hes, List.filter_append, hnone, List.append_nil]

/-- The edges into a settled node are the same after anything has been added. -/
theorem Keeps.into_eq (h : b.Keeps b') (hn : b.Own n) : into b'.edges n = into b.edges n :=
  h.filter_eq hn (Or.inr rfl)

theorem Keeps.outOf_eq (h : b.Keeps b') (hn : b.Own n) : outOf b'.edges n = outOf b.edges n :=
  h.filter_eq hn (Or.inl rfl)

theorem keeps_addVertex (b : Builder) (label : Label) : b.Keeps (b.addVertex label).2 :=
  ⟨Nat.le_succ _, ⟨[], by simp [addVertex]⟩, ⟨[], by simp [addVertex]⟩⟩

/-- A point has a node, or gets the next one. -/
theorem pointNode_cases (b : Builder) (p : Point) :
    (∃ v ∈ b.points, v.point = p ∧ b.pointNode p = (v.id, b))
      ∨ (p ∉ b.points.map PointVertex.point
        ∧ b.pointNode p = (⟨b.supply.nodes⟩, ⟨b.supply.takeNode.2,
            b.points ++ [⟨⟨b.supply.nodes⟩, p⟩], b.vertices, b.edges⟩)) := by
  cases hfind : b.points.find? (·.point == p) with
  | some v =>
    have hpoint : v.point = p := by simpa using List.find?_some hfind
    exact Or.inl ⟨v, List.mem_of_find?_eq_some hfind, hpoint, by simp only [pointNode, hfind]⟩
  | none =>
    refine Or.inr ⟨?_, by simp only [pointNode, hfind]; rfl⟩
    intro hmem
    obtain ⟨v, hv, hpoint⟩ := List.mem_map.mp hmem
    exact List.find?_eq_none.mp hfind v hv (by simpa using hpoint)

/-- The node of a point is the one it has, or a new one; in either case no edge comes with it. -/
theorem keeps_pointNode (b : Builder) (p : Point) : b.Keeps (b.pointNode p).2 := by
  rcases pointNode_cases b p with ⟨v, _, _, he⟩ | ⟨_, he⟩
  · rw [he]
    exact Keeps.refl b
  · rw [he]
    refine ⟨Nat.le_succ _, ⟨[⟨⟨b.supply.nodes⟩, p⟩], rfl, ?_⟩, ⟨[], by simp⟩⟩
    intro v hv
    rw [List.mem_singleton.mp hv]

theorem foreign_pointNode (b : Builder) (p : Point) :
    b.Foreign (b.pointNode p).2 (b.pointNode p).1 :=
  Or.inr (List.mem_map_of_mem (f := PointVertex.id) (mem_points_pointNode b p))

/-- An edge between nodes that are foreign to the graph so far keeps what is settled there. -/
theorem Keeps.addEdge (h : b.Keeps b') {source target : NodeId} (hs : b.Foreign b' source)
    (ht : b.Foreign b' target) : b.Keeps (b'.addEdge source target) := by
  obtain ⟨es, hes, hjoin⟩ := h.edges
  refine ⟨h.supply, h.points, ⟨es ++ [⟨source, target⟩], ?_, ?_⟩⟩
  · show b'.edges ++ [⟨source, target⟩] = _
    rw [hes, List.append_assoc]
  · intro e he
    rcases List.mem_append.mp he with he | he
    · exact hjoin e he
    · rw [List.mem_singleton.mp he]
      exact ⟨hs, ht⟩

/-- Feeding an expression to a new node adds new nodes, points and edges between them. -/
theorem Keeps.feed (h : b.Keeps b') {target : NodeId} {e : Expr} (ht : b.Foreign b' target)
    (hvisit : b'.Keeps (visit e b').2) (hnode : b'.Foreign (visit e b').2 (visit e b').1) :
    b.Keeps (b'.feed e target) :=
  (h.trans hvisit).addEdge (hnode.earlier h) (ht.mono hvisit)

/-- **An expression** joins new nodes and points, and so does its own node to what it is used in. -/
theorem keeps_visit (e : Expr) :
    ∀ b : Builder, b.Keeps (visit e b).2 ∧ b.Foreign (visit e b).2 (visit e b).1 := by
  induction e with
  | const v => intro b; exact ⟨keeps_addVertex b _, Or.inl (Nat.le_refl _)⟩
  | point p => intro b; exact ⟨keeps_pointNode b p, foreign_pointNode b p⟩
  | binary op lhs rhs ihl ihr =>
    intro b
    have hnew : ∀ b', b.Foreign b' ⟨b.supply.nodes⟩ := fun _ => Or.inl (Nat.le_refl _)
    rw [visit_binary]
    have hleft := (keeps_addVertex b (.operator op)).feed (hnew _) (ihl _).1 (ihl _).2
    exact ⟨hleft.feed (hnew _) (ihr _).1 (ihr _).2, hnew _⟩

theorem keeps_withEquals (b : Builder) : b.Keeps b.withEquals :=
  ⟨Nat.le_succ _, ⟨[], by simp [withEquals, addVertex]⟩, ⟨[], by simp [withEquals, addVertex]⟩⟩

theorem keeps_withTarget (b : Builder) (e : Equation) : b.Keeps (b.withTarget e) :=
  ((keeps_withEquals b).trans (keeps_pointNode _ _)).addEdge (Or.inl (Nat.le_refl _))
    ((foreign_pointNode _ _).earlier (keeps_withEquals b))

/-- An equation keeps what earlier equations have settled, though it may read the points that they
    write. -/
theorem keeps_addEquation (b : Builder) (index : Nat) (e : Equation) :
    b.Keeps (b.addEquation index e).2 := by
  rw [addEquation_snd]
  exact (keeps_withTarget b e).feed (Or.inl (Nat.le_refl _)) (keeps_visit e.rhs _).1
    (keeps_visit e.rhs _).2

/-- **The run**: nothing that follows an equation changes the edges at its nodes. -/
theorem keeps_addEquations (es : List Equation) :
    ∀ (b : Builder) (index : Nat), b.Keeps (b.addEquations index es).2 := by
  induction es with
  | nil => intro b index; exact Keeps.refl b
  | cons e es ih => intro b index; exact (keeps_addEquation b index e).trans (ih _ _)

/-! ## Numbered nodes -/

/-- The nodes so far are numbered in order, each for one vertex or point, and edges join them.
    Vertices of equations before the one at hand are given. -/
structure Sound (old : List Vertex) (b : Builder) : Prop where
  declared : ((old ++ b.vertices).map Vertex.id ++ b.points.map PointVertex.id).Perm
    ((List.range b.supply.nodes).map NodeId.mk)
  used : ∀ e ∈ b.edges, e.source.index < b.supply.nodes ∧ e.target.index < b.supply.nodes

variable {old : List Vertex}

/-- No two things have one node, because numbers are taken in order. -/
theorem Sound.nodup (h : Sound old b) :
    ((old ++ b.vertices).map Vertex.id ++ b.points.map PointVertex.id).Nodup := by
  rw [h.declared.nodup_iff]
  apply List.nodup_range.map
  intro m n hmn
  exact congrArg NodeId.index hmn

/-- The nodes in use have numbers that the supply has given out. -/
theorem Sound.index_lt (h : Sound old b)
    (hn : n ∈ (old ++ b.vertices).map Vertex.id ++ b.points.map PointVertex.id) :
    n.index < b.supply.nodes := by
  obtain ⟨i, hi, rfl⟩ := List.mem_map.mp (h.declared.mem_iff.mp hn)
  exact List.mem_range.mp hi

/-- The nodes of equations are no points', because each number has been given out once. -/
theorem Sound.own (h : Sound old b) {v : Vertex} (hv : v ∈ old ++ b.vertices) : b.Own v.id := by
  have hid : v.id ∈ (old ++ b.vertices).map Vertex.id := List.mem_map_of_mem hv
  refine ⟨h.index_lt (List.mem_append_left _ hid), fun hpoint => ?_⟩
  exact List.disjoint_of_nodup_append h.nodup hid hpoint

/-- Edges join nodes that are in use, also after more numbers have been given out. -/
theorem Sound.used_mono (h : Sound old b) {supply : Nat} (hle : b.supply.nodes ≤ supply) :
    ∀ e ∈ b.edges, e.source.index < supply ∧ e.target.index < supply := by
  intro e he
  exact ⟨Nat.lt_of_lt_of_le (h.used e he).1 hle, Nat.lt_of_lt_of_le (h.used e he).2 hle⟩

theorem Sound.addVertex (h : Sound old b) (label : Label) : Sound old (b.addVertex label).2 := by
  refine ⟨?_, h.used_mono (Nat.le_succ _)⟩
  -- the new node comes after the points, but it is counted before them
  have hmoved : ((old ++ (b.vertices ++ [Vertex.mk ⟨b.supply.nodes⟩ label])).map Vertex.id
      ++ b.points.map PointVertex.id).Perm
        (((old ++ b.vertices).map Vertex.id ++ b.points.map PointVertex.id)
          ++ [NodeId.mk b.supply.nodes]) := by
    simp only [List.map_append, List.append_assoc]
    exact (List.perm_append_comm.append_left _).append_left _
  apply hmoved.trans
  show List.Perm _ ((List.range (b.supply.nodes + 1)).map NodeId.mk)
  rw [List.range_succ, List.map_append (f := NodeId.mk)]
  exact h.declared.append_right _

/-- Looking a point up keeps the graph sound, whether it has a node already or gets one. -/
theorem Sound.pointNode (h : Sound old b) (p : Point) :
    Sound old (b.pointNode p).2 ∧ (b.pointNode p).1.index < (b.pointNode p).2.supply.nodes := by
  have hsound : Sound old (b.pointNode p).2 := by
    rcases pointNode_cases b p with ⟨v, _, _, he⟩ | ⟨_, he⟩
    · rw [he]
      exact h
    · rw [he]
      refine ⟨?_, h.used_mono (Nat.le_succ _)⟩
      show ((old ++ b.vertices).map Vertex.id ++ (b.points ++ [_]).map PointVertex.id).Perm
        ((List.range (b.supply.nodes + 1)).map NodeId.mk)
      rw [List.map_append (f := PointVertex.id), ← List.append_assoc, List.range_succ,
        List.map_append (f := NodeId.mk)]
      exact h.declared.append_right _
  refine ⟨hsound, hsound.index_lt (List.mem_append_right _ ?_)⟩
  exact List.mem_map_of_mem (mem_points_pointNode b p)

theorem Sound.addEdge (h : Sound old b) {source target : NodeId}
    (hs : source.index < b.supply.nodes) (ht : target.index < b.supply.nodes) :
    Sound old (b.addEdge source target) := by
  refine ⟨h.declared, ?_⟩
  intro e he
  rcases List.mem_append.mp he with he | he
  · exact h.used e he
  · rw [List.mem_singleton.mp he]
    exact ⟨hs, ht⟩

theorem Sound.feed {e : Expr} {target : NodeId} (hvisit : Sound old (Builder.visit e b).2)
    (hnode : (Builder.visit e b).1.index < (Builder.visit e b).2.supply.nodes)
    (ht : target.index < b.supply.nodes) : Sound old (b.feed e target) :=
  hvisit.addEdge hnode (Nat.lt_of_lt_of_le ht (keeps_visit e b).1.supply)

/-- **Building an expression keeps the graph sound**, and its root is a node in use. -/
theorem Sound.visit (e : Expr) : ∀ {b : Builder}, Sound old b →
    Sound old (Builder.visit e b).2
      ∧ (Builder.visit e b).1.index < (Builder.visit e b).2.supply.nodes := by
  induction e with
  | const v => intro b h; exact ⟨h.addVertex _, Nat.lt_succ_self _⟩
  | point p => intro b h; exact h.pointNode p
  | binary op lhs rhs ihl ihr =>
    intro b h
    have hid : b.supply.nodes < (b.addVertex (.operator op)).2.supply.nodes := Nat.lt_succ_self _
    obtain ⟨hleft, hl⟩ := ihl (h.addVertex (.operator op))
    have hid₂ := Nat.lt_of_lt_of_le hid (keeps_visit lhs _).1.supply
    have hfed : Sound old (Builder.feed _ lhs ⟨b.supply.nodes⟩) := hleft.feed hl hid
    obtain ⟨hright, hr⟩ := ihr hfed
    rw [visit_binary]
    refine ⟨hright.feed hr hid₂, ?_⟩
    exact Nat.lt_of_lt_of_le hid₂ (keeps_visit rhs (Builder.feed _ lhs _)).1.supply

/-- The vertices of an equation that is done are old ones. -/
theorem Sound.clear (h : Sound old b) : Sound (old ++ b.vertices) { b with vertices := [] } := by
  refine ⟨?_, h.used⟩
  show ((old ++ b.vertices ++ []).map Vertex.id ++ _).Perm _
  rw [List.append_nil]
  exact h.declared

theorem Sound.withTarget (h : Sound old { b with vertices := [] }) (e : Equation) :
    Sound old (b.withTarget e) := by
  have hequals : Sound old b.withEquals := h.addVertex .equals
  obtain ⟨htarget, hlt⟩ := hequals.pointNode e.lhs
  have hid : b.supply.nodes < b.withEquals.supply.nodes := Nat.lt_succ_self _
  exact htarget.addEdge (Nat.lt_of_lt_of_le hid (keeps_pointNode _ _).supply) hlt

/-- An equation keeps the graph sound, with the nodes of all earlier equations set apart. -/
theorem Sound.addEquation (h : Sound old { b with vertices := [] }) (index : Nat) (e : Equation) :
    Sound old (b.addEquation index e).2 := by
  obtain ⟨hvisit, hnode⟩ := (h.withTarget e).visit e.rhs
  have hid : b.supply.nodes < b.withEquals.supply.nodes := Nat.lt_succ_self _
  rw [addEquation_snd]
  exact hvisit.feed hnode (Nat.lt_of_lt_of_le hid (keeps_pointNode _ _).supply)

/-! ## Trees -/

/-- A new edge comes last among those into its target, which is what tells the left operand from the
    right one. -/
theorem into_addEdge_self (b : Builder) (source target : NodeId) :
    into (b.addEdge source target).edges target = into b.edges target ++ [⟨source, target⟩] := by
  simp [into, Builder.addEdge]

theorem into_addEdge_of_ne (b : Builder) (source : NodeId) {target : NodeId} (h : n ≠ target) :
    into (b.addEdge source target).edges n = into b.edges n := by
  simp [into, Builder.addEdge, h.symm]

theorem outOf_addEdge_self (b : Builder) (source target : NodeId) :
    outOf (b.addEdge source target).edges source = outOf b.edges source ++ [⟨source, target⟩] := by
  simp [outOf, Builder.addEdge]

theorem outOf_addEdge_of_ne (b : Builder) {source : NodeId} (target : NodeId) (h : n ≠ source) :
    outOf (b.addEdge source target).edges n = outOf b.edges n := by
  simp [outOf, Builder.addEdge, h.symm]

/-- A node that is not in use has no edges. -/
theorem Sound.edges_eq_nil (h : Sound old b) (hn : b.supply.nodes ≤ n.index) :
    into b.edges n = [] ∧ outOf b.edges n = [] := by
  constructor
  · rw [into, List.filter_eq_nil_iff]
    intro e he htarget
    have hlt := (h.used e he).2
    rw [eq_of_beq htarget] at hlt
    exact Nat.not_le.mpr hlt hn
  · rw [outOf, List.filter_eq_nil_iff]
    intro e he hsource
    have hlt := (h.used e he).1
    rw [eq_of_beq hsource] at hlt
    exact Nat.not_le.mpr hlt hn

/-- An operand leaves the nodes of equations their own. -/
theorem Own.feed (hn : b.Own n) (e : Expr) (target : NodeId) : (b.feed e target).Own n := by
  show (visit e b).2.Own n
  exact hn.keeps (keeps_visit e b).1

/-- An operand adds its own edge to those into a node. -/
theorem into_feed_self {target : NodeId} (ht : b.Own target) (e : Expr) :
    into (b.feed e target).edges target = into b.edges target ++ [⟨(visit e b).1, target⟩] := by
  rw [feed, into_addEdge_self, (keeps_visit e b).1.into_eq ht]

/-- Feeding one node leaves the edges into the others as they are. -/
theorem into_feed_of_ne {target : NodeId} (hn : b.Own n) (hne : n ≠ target) (e : Expr) :
    into (b.feed e target).edges n = into b.edges n := by
  rw [feed, into_addEdge_of_ne _ _ hne, (keeps_visit e b).1.into_eq hn]

/-- What a tree adds of its own: new vertices, from which it can be unfolded again. -/
structure Draws (b b' : Builder) (root : NodeId) (e : Expr) (vs : List Vertex) : Prop where
  vertices : b'.vertices = b.vertices ++ vs
  fresh : ∀ v ∈ vs, b.supply.nodes ≤ v.id.index
  labels : vs.map Vertex.label = e.labels
  unfolds : Unfolds vs b'.points b'.edges root e
  fed : Fed vs b'.edges

/-- An edge into a node that was there before does not matter. -/
theorem Draws.feed {target : NodeId} {e : Expr} {vs : List Vertex}
    (h : Draws b (visit e b).2 (visit e b).1 e vs) (ht : target.index < b.supply.nodes) :
    Draws b (b.feed e target) (visit e b).1 e vs := by
  have hsame : ∀ v ∈ vs, into (b.feed e target).edges v.id = into (visit e b).2.edges v.id := by
    intro v hv
    apply into_addEdge_of_ne
    rintro rfl
    exact Nat.not_le.mpr ht (h.fresh v hv)
  exact ⟨h.vertices, h.fresh, h.labels,
    h.unfolds.mono (List.Subset.refl _) (List.Subset.refl _) hsame, h.fed.mono hsame⟩

/-- **An expression can be unfolded from its node.** -/
theorem Sound.draws (e : Expr) : ∀ {b : Builder}, Sound old b →
    ∃ vs, Draws b (Builder.visit e b).2 (Builder.visit e b).1 e vs := by
  induction e with
  | const v =>
    intro b h
    refine ⟨[⟨⟨b.supply.nodes⟩, .const v⟩], rfl, ?_, rfl, .const (List.mem_singleton.mpr rfl), ?_⟩
    · intro w hw
      rw [List.mem_singleton.mp hw]
    · intro w hw op hop
      rw [List.mem_singleton.mp hw] at hop
      cases hop
  | point p =>
    intro b h
    refine ⟨[], ?_, List.forall_mem_nil _, rfl, .point (mem_points_pointNode b p),
      List.forall_mem_nil _⟩
    show (b.pointNode p).2.vertices = b.vertices ++ []
    rw [List.append_nil]
    rcases pointNode_cases b p with ⟨v, _, _, he⟩ | ⟨_, he⟩ <;> rw [he]
  | binary op lhs rhs ihl ihr =>
    intro b h
    rw [visit_binary]
    set id : NodeId := ⟨b.supply.nodes⟩
    set b₁ := (b.addVertex (.operator op)).2
    have h₁ : Sound old b₁ := h.addVertex _
    have hlt : id.index < b₁.supply.nodes := Nat.lt_succ_self _
    have hown : b₁.Own id := h₁.own (v := ⟨id, .operator op⟩)
      (List.mem_append_right _ (List.mem_append_right _ (List.mem_singleton.mpr rfl)))
    obtain ⟨hvisit, hnode⟩ := h₁.visit lhs
    have h₂ : Sound old (b₁.feed lhs id) := hvisit.feed hnode hlt
    have hle : b₁.supply.nodes ≤ (b₁.feed lhs id).supply.nodes := (keeps_visit lhs b₁).1.supply
    obtain ⟨vl, hleft⟩ := ihl h₁
    obtain ⟨vr, hright⟩ := ihr h₂
    have hleft := hleft.feed hlt
    have hright := hright.feed (Nat.lt_of_lt_of_le hlt hle)
    -- the edges into the operator come from its operands, the left one first
    have hinto : into ((b₁.feed lhs id).feed rhs id).edges id
        = [⟨(Builder.visit lhs b₁).1, id⟩, ⟨(Builder.visit rhs (b₁.feed lhs id)).1, id⟩] := by
      have hnone : into b₁.edges id = [] := (h.edges_eq_nil (n := id) (Nat.le_refl _)).1
      rw [into_feed_self (hown.feed lhs id), into_feed_self hown, hnone]
      rfl
    -- the right operand leaves the left one alone
    have hsame : ∀ v ∈ vl, into ((b₁.feed lhs id).feed rhs id).edges v.id
        = into (b₁.feed lhs id).edges v.id := by
      intro v hv
      apply into_feed_of_ne
      · apply h₂.own
        rw [hleft.vertices]
        exact List.mem_append_right _ (List.mem_append_right _ hv)
      · rintro heq
        have hfresh := hleft.fresh v hv
        rw [heq] at hfresh
        exact Nat.not_le.mpr hlt hfresh
    refine ⟨⟨id, .operator op⟩ :: (vl ++ vr), ?_, ?_, ?_, ?_, ?_⟩
    · rw [hright.vertices, hleft.vertices]
      show b.vertices ++ [⟨id, .operator op⟩] ++ vl ++ vr = _
      simp
    · intro v hv
      rcases List.mem_cons.mp hv with rfl | hv
      · exact Nat.le_refl _
      · rcases List.mem_append.mp hv with hv | hv
        · exact Nat.le_trans (Nat.le_of_lt hlt) (hleft.fresh v hv)
        · exact Nat.le_trans (Nat.le_of_lt hlt) (Nat.le_trans hle (hright.fresh v hv))
    · rw [List.map_cons, List.map_append, hleft.labels, hright.labels]
      rfl
    · refine .binary List.mem_cons_self hinto ?_ ?_
      · apply hleft.unfolds.mono _ (keeps_visit rhs (b₁.feed lhs id)).1.points_subset hsame
        exact fun v hv => List.mem_cons_of_mem _ (List.mem_append_left _ hv)
      · apply hright.unfolds.mono _ (List.Subset.refl _) fun _ _ => rfl
        exact fun v hv => List.mem_cons_of_mem _ (List.mem_append_right _ hv)
    · intro v hv op' hop
      rcases List.mem_cons.mp hv with rfl | hv
      · exact ⟨_, _, hinto⟩
      · rcases List.mem_append.mp hv with hv | hv
        · exact hleft.fed.mono hsame v hv op' hop
        · exact hright.fed v hv op' hop

/-! ## Equations -/

/-- Later equations leave an equation as it is. -/
theorem reads_of_keeps {c : Cluster} (h : Reads b.points b.edges c) (hb : b.Keeps b')
    (hown : ∀ v ∈ c.vertices, b.Own v.id) : Reads b'.points b'.edges c := by
  obtain ⟨equals, target, root, vs, hvertices, hlabels, hout, htarget, hin, htree, hfed⟩ := h
  have hequals : b.Own equals := by
    apply hown ⟨equals, .equals⟩
    rw [hvertices]
    exact List.mem_cons_self
  have hsame : ∀ v ∈ vs, into b'.edges v.id = into b.edges v.id := by
    intro v hv
    apply hb.into_eq
    apply hown
    rw [hvertices]
    exact List.mem_cons_of_mem _ hv
  refine ⟨equals, target, root, vs, hvertices, hlabels, ?_, hb.points_subset htarget, ?_, ?_, ?_⟩
  · rw [hb.outOf_eq hequals, hout]
  · rw [hb.into_eq hequals, hin]
  · exact htree.mono (List.Subset.refl _) hb.points_subset hsame
  · exact hfed.mono hsame

/-- **An equation can be read off its cluster** once it is added. -/
theorem Sound.reads (h : Sound old { b with vertices := [] }) (index : Nat) (e : Equation) :
    Reads (b.addEquation index e).2.points (b.addEquation index e).2.edges
      (b.addEquation index e).1 := by
  set equals : NodeId := ⟨b.supply.nodes⟩ with hequals
  have h₁ : Sound old b.withEquals := h.addVertex .equals
  have hown : b.withEquals.Own equals := h₁.own (v := ⟨equals, .equals⟩)
    (List.mem_append_right _ (List.mem_append_right _ (List.mem_singleton.mpr rfl)))
  have h₂ : Sound old (b.withTarget e) := h.withTarget e
  have hown₂ : (b.withEquals.pointNode e.lhs).2.Own equals := hown.keeps (keeps_pointNode _ e.lhs)
  have hown₃ : (b.withTarget e).Own equals := hown₂
  obtain ⟨vs, hdraws⟩ := h₂.draws e.rhs
  have hdraws := hdraws.feed hown₃.1
  obtain ⟨hinto, houtOf⟩ := h.edges_eq_nil (n := equals) (Nat.le_refl _)
  have hedges : (b.withEquals.pointNode e.lhs).2.edges = b.edges := by
    rcases pointNode_cases b.withEquals e.lhs with ⟨v, _, _, he⟩ | ⟨_, he⟩ <;> rw [he] <;> rfl
  -- neither the written point nor the root is the EQUALS node
  have htarget : equals ≠ (b.withEquals.pointNode e.lhs).1 := by
    intro heq
    apply hown₂.2
    rw [heq]
    exact List.mem_map_of_mem (mem_points_pointNode b.withEquals e.lhs)
  have hroot : equals ≠ (Builder.visit e.rhs (b.withTarget e)).1 := by
    intro heq
    apply hown₃.not_foreign (keeps_visit e.rhs (b.withTarget e)).1
    rw [heq]
    exact (keeps_visit e.rhs (b.withTarget e)).2
  have hkeeps := (keeps_visit e.rhs (b.withTarget e)).1
  refine ⟨equals, (b.withEquals.pointNode e.lhs).1, (Builder.visit e.rhs (b.withTarget e)).1, vs,
    ?_, hdraws.labels, ?_, ?_, ?_, hdraws.unfolds, hdraws.fed⟩
  · show ((b.withTarget e).feed e.rhs equals).vertices = _
    rw [hdraws.vertices]
    show (b.withEquals.pointNode e.lhs).2.vertices ++ vs = _
    rcases pointNode_cases b.withEquals e.lhs with ⟨v, _, _, he⟩ | ⟨_, he⟩ <;> rw [he] <;> rfl
  · show outOf ((b.withTarget e).feed e.rhs equals).edges equals = _
    rw [Builder.feed, outOf_addEdge_of_ne _ _ hroot, hkeeps.outOf_eq hown₃, Builder.withTarget,
      outOf_addEdge_self, hedges, houtOf]
    rfl
  · exact hkeeps.points_subset (mem_points_pointNode b.withEquals e.lhs)
  · show into ((b.withTarget e).feed e.rhs equals).edges equals = _
    rw [into_feed_self hown₃, Builder.withTarget, into_addEdge_of_ne _ _ htarget, hedges, hinto]
    rfl

/-- **All equations can be read off their clusters**, and the nodes are numbered in order. -/
theorem Sound.addEquations (es : List Equation) :
    ∀ {old : List Vertex} {b : Builder} (index : Nat), Sound old { b with vertices := [] } →
      Sound (old ++ (b.addEquations index es).1.flatMap Cluster.vertices)
          { (b.addEquations index es).2 with vertices := [] }
        ∧ ∀ c ∈ (b.addEquations index es).1,
            Reads (b.addEquations index es).2.points (b.addEquations index es).2.edges c := by
  induction es with
  | nil =>
    intro old b index h
    refine ⟨?_, List.forall_mem_nil _⟩
    show Sound (old ++ []) _
    rw [List.append_nil]
    exact h
  | cons e es ih =>
    intro old b index h
    have hequation : Sound old (b.addEquation index e).2 := h.addEquation index e
    obtain ⟨hsound, hreads⟩ := ih (index + 1) hequation.clear
    refine ⟨?_, ?_⟩
    · rw [List.append_assoc] at hsound
      exact hsound
    · intro c hc
      rcases List.mem_cons.mp hc with rfl | hc
      -- the first equation was readable when it was added, and the others keep its edges
      · apply reads_of_keeps (h.reads index e) (keeps_addEquations es _ (index + 1))
        intro v hv
        exact hequation.own (List.mem_append_right _ hv)
      · exact hreads c hc

/-- There is one cluster for each equation, with its number and in its order. -/
theorem clusters_addEquations (es : List Equation) : ∀ (b : Builder) (index : Nat),
    (b.addEquations index es).1.map Cluster.equation = es
      ∧ (b.addEquations index es).1.map Cluster.index = List.range' index es.length := by
  induction es with
  | nil => intro b index; exact ⟨rfl, rfl⟩
  | cons e es ih =>
    intro b index
    obtain ⟨hequations, hindices⟩ := ih (b.addEquation index e).2 (index + 1)
    refine ⟨congrArg (e :: ·) hequations, ?_⟩
    rw [List.length_cons, List.range'_succ]
    exact congrArg (index :: ·) hindices

/-! ## Points and edges -/

/-- A point that is new comes last; one that has a node changes nothing. -/
theorem points_pointNode (p : Point) {ps : List Point}
    (h : b.points.map PointVertex.point = ps.eraseDups) :
    (b.pointNode p).2.points.map PointVertex.point = (ps ++ [p]).eraseDups := by
  rw [List.eraseDups_append]
  rcases pointNode_cases b p with ⟨v, hv, hpoint, he⟩ | ⟨hnew, he⟩
  · have hp : p ∈ ps := by
      rw [← List.mem_eraseDups, ← h, ← hpoint]
      exact List.mem_map_of_mem hv
    rw [he, h]
    simp [List.removeAll, hp]
  · have hp : p ∉ ps := by
      rw [← List.mem_eraseDups, ← h]
      exact hnew
    rw [he]
    show (b.points ++ [_]).map PointVertex.point = _
    rw [List.map_append, h]
    simp [List.removeAll, hp, List.eraseDups_cons]

/-- **Points get nodes in the order in which they first occur.** -/
theorem points_visit (e : Expr) : ∀ {b : Builder} {ps : List Point},
    b.points.map PointVertex.point = ps.eraseDups →
      (visit e b).2.points.map PointVertex.point = (ps ++ e.points).eraseDups := by
  induction e with
  | const v => intro b ps h; rw [show ps ++ (Expr.const v).points = ps from List.append_nil ps]; exact h
  | point p => intro b ps h; exact points_pointNode p h
  | binary op lhs rhs ihl ihr =>
    intro b ps h
    rw [visit_binary, Expr.points, ← List.append_assoc]
    exact ihr (ihl (b := (b.addVertex (.operator op)).2) h)

/-- The points of all equations, each once, in the order in which they first occur. -/
theorem points_addEquations (es : List Equation) : ∀ {b : Builder} {ps : List Point} (index : Nat),
    b.points.map PointVertex.point = ps.eraseDups →
      (b.addEquations index es).2.points.map PointVertex.point
        = (ps ++ es.flatMap Equation.points).eraseDups := by
  induction es with
  | nil => intro b ps index h; rw [List.flatMap_nil, List.append_nil]; exact h
  | cons e es ih =>
    intro b ps index h
    have htarget := points_pointNode (b := b.withEquals) e.lhs h
    have hequation := points_visit e.rhs (b := b.withTarget e) htarget
    rw [List.append_assoc] at hequation
    rw [List.flatMap_cons, ← List.append_assoc]
    exact ih (index + 1) hequation

theorem edges_pointNode (b : Builder) (p : Point) : (b.pointNode p).2.edges = b.edges := by
  rcases pointNode_cases b p with ⟨v, _, _, he⟩ | ⟨_, he⟩ <;> rw [he]

/-- Two edges for each operator, one from each of its operands. -/
theorem length_edges_visit (e : Expr) : ∀ b : Builder,
    (visit e b).2.edges.length = b.edges.length + 2 * e.subtrees.countP Expr.isBinary := by
  induction e with
  | const v => intro b; rfl
  | point p => intro b; exact congrArg List.length (edges_pointNode b p)
  | binary op lhs rhs ihl ihr =>
    intro b
    have hl := ihl (b.addVertex (.operator op)).2
    have hr := ihr ((b.addVertex (.operator op)).2.feed lhs ⟨b.supply.nodes⟩)
    have hfeed : ∀ (b : Builder) (e : Expr) (target : NodeId),
        (b.feed e target).edges.length = (visit e b).2.edges.length + 1 :=
      fun _ _ _ => List.length_append
    rw [hfeed, hl] at hr
    rw [visit_binary]
    show (feed _ rhs _).edges.length = _
    rw [hfeed, hr]
    show b.edges.length + _ + 1 + _ + 1 = _
    simp only [Expr.subtrees, List.countP_cons, List.countP_append, Expr.isBinary, if_true]
    omega

/-- Two edges an operator, and two an equation. -/
theorem length_edges_addEquations (es : List Equation) : ∀ (b : Builder) (index : Nat),
    (b.addEquations index es).2.edges.length = b.edges.length
      + 2 * (es.map fun e => e.rhs.subtrees.countP Expr.isBinary).sum + 2 * es.length := by
  induction es with
  | nil => intro b index; rfl
  | cons e es ih =>
    intro b index
    have hequation : (b.addEquation index e).2.edges.length
        = b.edges.length + 2 * e.rhs.subtrees.countP Expr.isBinary + 2 := by
      have hvisit := length_edges_visit e.rhs (b.withTarget e)
      have htarget : (b.withTarget e).edges.length = b.edges.length + 1 := by
        show ((b.withEquals.pointNode e.lhs).2.edges ++ [_]).length = _
        rw [edges_pointNode, List.length_append]
        rfl
      show ((visit e.rhs (b.withTarget e)).2.edges ++ [_]).length = _
      rw [List.length_append, hvisit, htarget, List.length_singleton]
      omega
    have hrest := ih (b.addEquation index e).2 (index + 1)
    show ((b.addEquation index e).2.addEquations (index + 1) es).2.edges.length = _
    rw [hrest, hequation, List.map_cons, List.sum_cons, List.length_cons]
    omega

end Builder

/-! ## Whole graphs -/

/-- **A node unfolds to one tree**, where no two vertices or points have one node. -/
theorem Unfolds.unique {n : NodeId} {e e' : Expr}
    (hnodup : (vertices.map Vertex.id ++ points.map PointVertex.id).Nodup)
    (h : Unfolds vertices points edges n e) (h' : Unfolds vertices points edges n e') : e = e' := by
  have hvertex : ∀ {n label label'}, ⟨n, label⟩ ∈ vertices → ⟨n, label'⟩ ∈ vertices →
      label = label' := fun hv hv' =>
    congrArg Vertex.label (List.inj_on_of_nodup_map hnodup.of_append_left hv hv' rfl)
  have hpoint : ∀ {n p p'}, ⟨n, p⟩ ∈ points → ⟨n, p'⟩ ∈ points → p = p' := fun hv hv' =>
    congrArg PointVertex.point (List.inj_on_of_nodup_map hnodup.of_append_right hv hv' rfl)
  -- a node is a point or belongs to an equation, so that the two trees start alike
  have hapart : ∀ {n label p}, ⟨n, label⟩ ∈ vertices → ⟨n, p⟩ ∉ points := fun hv hv' =>
    List.disjoint_of_nodup_append hnodup (List.mem_map_of_mem hv) (List.mem_map_of_mem hv')
  induction h generalizing e' with
  | const h =>
    cases h' with
    | const h' => injection hvertex h h' with hv; rw [hv]
    | point h' => exact absurd h' (hapart h)
    | binary h' => cases hvertex h h'
  | point h =>
    cases h' with
    | const h' => exact absurd h (hapart h')
    | point h' => rw [hpoint h h']
    | binary h' => exact absurd h (hapart h')
  | binary h hinto _ _ ihl ihr =>
    cases h' with
    | const h' => cases hvertex h h'
    | point h' => exact absurd h' (hapart h)
    | binary h' hinto' hl hr =>
      injection hvertex h h' with hop
      rw [hinto] at hinto'
      injection hinto' with hleft hrest
      injection hrest with hright _
      injection hleft with hleft _
      injection hright with hright _
      subst hleft hright
      rw [hop, ihl hl, ihr hr]

end Graph

namespace Dot

/-- The names of the nodes that are declared, in order. -/
def declared (doc : Document) : List String :=
  doc.filterMap fun s => match s.2 with
    | .node name _ => some name
    | _ => none

/-- The edges with their attributes, in order. -/
def edges (doc : Document) : List (String × String × Attributes) :=
  doc.filterMap fun s => match s.2 with
    | .edge source target attributes => some (source, target, attributes)
    | _ => none

end Dot

namespace Graph

/-- The nodes of equations. -/
def vertices (g : Graph) : List Vertex := g.clusters.flatMap Cluster.vertices

/-- What the document declares: the grids, the points and the nodes of the equations. -/
theorem declared_document (g : Graph) (s : Solution) :
    Dot.declared (g.document s) = s.grids.map gridNode ++ g.points.map (·.id.text)
      ++ g.vertices.map (·.id.text) := by
  simp [Dot.declared, document, gridStatement, pointStatement, edgeStatement, tieStatement,
    clusterStatements, vertexStatement, vertices, List.filterMap_map, List.filterMap_flatMap,
    List.map_flatMap, Function.comp_def]

/-- The edges of the document: the flows, and then the tie of each point to its grid. -/
theorem edges_document (g : Graph) (s : Solution) :
    Dot.edges (g.document s) = g.edges.map (fun e => (e.source.text, e.target.text, []))
      ++ g.points.map (fun v => (v.id.text, gridNode v.point.grid, Dot.dashed)) := by
  simp [Dot.edges, document, gridStatement, pointStatement, edgeStatement, tieStatement,
    clusterStatements, vertexStatement, List.filterMap_map, List.filterMap_flatMap,
    Function.comp_def]

/-- An identifier stays as it is in the name of a node. -/
theorem gridNode_eq {g : Grid} (h : IsIdentifier g.name) : gridNode g = "grid_" ++ g.name := by
  have hall : ∀ c ∈ g.name.toList, isLetterOrDigit c = true := by
    obtain ⟨c, cs, hname, hc, hcs⟩ := h
    rw [hname]
    apply List.forall_mem_cons.mpr ⟨?_, fun d hd => (isLetterOrDigit_iff d).mpr (hcs d hd)⟩
    rw [isLetterOrDigit, (isLetter_iff c).mpr hc]
    rfl
  have hsame : (g.name.toList.map fun c => if isLetterOrDigit c then c else '_')
      = g.name.toList := by
    rw [List.map_congr_left fun c hc => if_pos (hall c hc)]
    exact List.map_id' _
  rw [gridNode, sanitize, hsame, String.ofList_toList]

end Graph

namespace Solution

/-- The operators in all equations, as often as they occur. -/
def operatorCount (s : Solution) : Nat :=
  (s.equations.map fun e => e.rhs.subtrees.countP Expr.isBinary).sum

/-- The constants in all equations, as often as they occur. -/
def constantCount (s : Solution) : Nat :=
  (s.equations.map fun e => e.rhs.subtrees.countP Expr.isConst).sum

/-- The points of all equations, each where it first occurs. -/
def points (s : Solution) : List Point := (s.equations.flatMap Equation.points).eraseDups

/-- The nodes of a graph: one an equation, an operator, a constant and a point. -/
def nodeCount (s : Solution) : Nat :=
  s.equations.length + s.operatorCount + s.constantCount + s.points.length

theorem points_graph (s : Solution) : s.graph.points.map Graph.PointVertex.point = s.points :=
  @Graph.Builder.points_addEquations s.equations .start [] 0 rfl

/-- Two flows for each operator, one for each of its operands, and two for each equation, one for
    each of its sides. -/
theorem length_edges_graph (s : Solution) :
    s.graph.edges.length = 2 * s.operatorCount + 2 * s.equations.length := by
  have h := Graph.Builder.length_edges_addEquations s.equations .start 0
  rw [show Graph.Builder.start.edges.length = 0 from rfl, Nat.zero_add] at h
  exact h

/-- The cluster of an equation is found under the number of the equation. -/
theorem clusters_graph (s : Solution) {i : Nat} {e : Equation} (h : s.equations[i]? = some e) :
    ∃ c, s.graph.clusters[i]? = some c ∧ c.index = i ∧ c.equation = e := by
  obtain ⟨hequations, hindices⟩ := Graph.Builder.clusters_addEquations s.equations .start 0
  have he : (s.graph.clusters.map Graph.Cluster.equation)[i]? = some e := by
    rw [← h]
    exact congrArg (·[i]?) hequations
  rw [List.getElem?_map, Option.map_eq_some_iff] at he
  obtain ⟨c, hc, hequation⟩ := he
  refine ⟨c, hc, ?_, hequation⟩
  have hi : (s.graph.clusters.map Graph.Cluster.index)[i]? = (List.range' 0 s.equations.length)[i]? :=
    congrArg (·[i]?) hindices
  have hlt : i < s.equations.length := (List.getElem?_eq_some_iff.mp h).1
  simpa [hc, hlt] using hi

/-- What is kept while a graph is built, of the whole graph. -/
theorem sound_graph (s : Solution) :
    (∃ count, (s.graph.vertices.map Graph.Vertex.id
        ++ s.graph.points.map Graph.PointVertex.id).Perm ((List.range count).map NodeId.mk)
      ∧ ∀ e ∈ s.graph.edges, e.source.index < count ∧ e.target.index < count)
      ∧ ∀ c ∈ s.graph.clusters, Graph.Reads s.graph.points s.graph.edges c := by
  have hstart : Graph.Builder.Sound [] .start := ⟨List.Perm.refl _, List.forall_mem_nil _⟩
  obtain ⟨hsound, hreads⟩ := @Graph.Builder.Sound.addEquations s.equations [] .start 0 hstart
  have hdeclared := hsound.declared
  rw [List.nil_append, List.append_nil] at hdeclared
  exact ⟨⟨_, hdeclared, hsound.used⟩, hreads⟩

/-- The nodes of an equation: the EQUALS node, and one an operator and a constant. -/
theorem length_vertices_graph (s : Solution) :
    s.graph.vertices.length = s.equations.length + s.operatorCount + s.constantCount := by
  have hcluster : ∀ c ∈ s.graph.clusters, c.vertices.length
      = 1 + (c.equation.rhs.subtrees.countP Expr.isBinary
        + c.equation.rhs.subtrees.countP Expr.isConst) := by
    intro c hc
    obtain ⟨equals, target, root, vs, hvertices, hlabels, _⟩ := s.sound_graph.2 c hc
    rw [hvertices, List.length_cons, ← c.equation.rhs.length_labels, ← hlabels, List.length_map,
      Nat.add_comm]
  have hequations : s.graph.clusters.map Graph.Cluster.equation = s.equations :=
    (Graph.Builder.clusters_addEquations s.equations .start 0).1
  rw [Graph.vertices, List.length_flatMap, List.map_congr_left hcluster, operatorCount,
    constantCount, ← hequations]
  induction s.graph.clusters with
  | nil => rfl
  | cons c cs ih =>
    simp only [List.map_cons, List.sum_cons, List.length_cons, List.map_map] at ih ⊢
    omega

/-- **The nodes are numbered in order**, one an equation, an operator, a constant and a point. -/
theorem declared_graph (s : Solution) :
    (s.graph.vertices.map Graph.Vertex.id ++ s.graph.points.map Graph.PointVertex.id).Perm
        ((List.range s.nodeCount).map NodeId.mk)
      ∧ ∀ e ∈ s.graph.edges, e.source.index < s.nodeCount ∧ e.target.index < s.nodeCount := by
  obtain ⟨⟨count, hdeclared, hused⟩, _⟩ := s.sound_graph
  have hcount : count = s.nodeCount := by
    have hlength := hdeclared.length_eq
    rw [List.length_append, List.length_map, List.length_map, List.length_map, List.length_range,
      length_vertices_graph] at hlength
    rw [← hlength, nodeCount, ← points_graph, List.length_map]
  rw [← hcount]
  exact ⟨hdeclared, hused⟩

/-- Grids and nodes are declared once each: grids by their different names, nodes by their
    numbers. -/
theorem Valid.nodup_names {s : Solution} (h : s.Valid) :
    (s.grids.map Graph.gridNode ++ (List.range s.nodeCount).map fun i => "n" ++ toString i).Nodup := by
  rw [List.nodup_append']
  refine ⟨?_, ?_, ?_⟩
  · apply h.gridNames.of_map.map_on
    intro g hg g' hg' heq
    rw [Graph.gridNode_eq (h.shapes g hg).name, Graph.gridNode_eq (h.shapes g' hg').name,
      String.append_right_inj] at heq
    exact List.inj_on_of_nodup_map h.gridNames hg hg' heq
  · apply List.nodup_range.map
    intro i j heq
    exact congrArg NodeId.index (@Graph.text_injective ⟨i⟩ ⟨j⟩ heq)
  · intro name hgrid hnode
    obtain ⟨g, _, rfl⟩ := List.mem_map.mp hgrid
    obtain ⟨i, _, heq⟩ := List.mem_map.mp hnode
    exact Graph.text_ne_gridNode ⟨i⟩ g heq

/-- The names that the text of a graph declares, as they are read. -/
theorem declared_dot (s : Solution) :
    (Dot.declared (s.graph.document s)).Perm (s.grids.map Graph.gridNode
      ++ (List.range s.nodeCount).map fun i => "n" ++ toString i) := by
  have hids := (s.declared_graph.1).map NodeId.text
  rw [List.map_append, List.map_map, List.map_map, List.map_map] at hids
  rw [Graph.declared_document, List.append_assoc]
  exact (List.perm_append_comm.trans hids).append_left _

end Solution

/-- **The graph of a solution encodes its equations**, as its text says it, whatever the calls that
    made the solution.

    * The text is read without error, and says the nodes and edges of the graph.
    * It declares the nodes of the grids and those named `n0`, `n1`, … once each. Of the latter there
      is one an equation, an operator, a constant and a point; operators and constants are counted
      as often as they occur, points once. So a 32-bit counter numbers them if there are fewer than
      `2 ^ 32`.
    * Edges join declared nodes. Two flows belong to each operator and two to each equation. Each
      point has one tie, to its own grid.
    * Every operator has two flows into it.
    * The EQUALS node of an equation has one flow out of it, to the written point, and one into it.
      Followed back from there, a first flow into an operator for its left operand and a second one
      for its right operand, the flows give the right-hand side and no other tree. -/
theorem Draft.dot_encodes_equations (name : String) (log : Option Sink) (calls : List Call) :
    let s := ((Draft.new name log).after calls).solution
    let g := s.graph
    let doc := g.document s
    Dot.read s.dot = some doc
      ∧ (Dot.declared doc).Nodup
      ∧ (Dot.declared doc).Perm
          (s.grids.map Graph.gridNode ++ (List.range s.nodeCount).map fun i => "n" ++ toString i)
      ∧ s.nodeCount = s.equations.length
          + (s.equations.map fun e => e.rhs.subtrees.countP Expr.isBinary).sum
          + (s.equations.map fun e => e.rhs.subtrees.countP Expr.isConst).sum
          + (s.equations.flatMap Equation.points).eraseDups.length
      ∧ (∀ e ∈ Dot.edges doc, e.1 ∈ Dot.declared doc ∧ e.2.1 ∈ Dot.declared doc)
      ∧ Dot.edges doc = g.edges.map (fun e => (e.source.text, e.target.text, []))
          ++ g.points.map (fun v => (v.id.text, Graph.gridNode v.point.grid, Dot.dashed))
      ∧ g.edges.length
          = 2 * (s.equations.map fun e => e.rhs.subtrees.countP Expr.isBinary).sum
            + 2 * s.equations.length
      ∧ g.points.map Graph.PointVertex.point = (s.equations.flatMap Equation.points).eraseDups
      ∧ (∀ c ∈ g.clusters, ∀ v ∈ c.vertices, ∀ op, v.label = .operator op →
          ∃ l r, Graph.into g.edges v.id = [⟨l, v.id⟩, ⟨r, v.id⟩])
      ∧ ∀ (i : Nat) (e : Equation), s.equations[i]? = some e →
          ∃ (c : Graph.Cluster) (equals target root : NodeId) (vs : List Graph.Vertex),
            g.clusters[i]? = some c ∧ c.index = i ∧ c.equation = e
            ∧ c.vertices = ⟨equals, .equals⟩ :: vs ∧ vs.map Graph.Vertex.label = e.rhs.labels
            ∧ Graph.outOf g.edges equals = [⟨equals, target⟩] ∧ ⟨target, e.lhs⟩ ∈ g.points
            ∧ Graph.into g.edges equals = [⟨root, equals⟩]
            ∧ ∀ t, Graph.Unfolds g.vertices g.points g.edges root t ↔ t = e.rhs := by
  intro s g doc
  have hvalid : s.Valid := valid_after name log calls
  obtain ⟨hdeclared, hused⟩ := s.declared_graph
  have hnodup : (g.vertices.map Graph.Vertex.id ++ g.points.map Graph.PointVertex.id).Nodup := by
    rw [hdeclared.nodup_iff]
    exact List.nodup_range.map fun m n hmn => congrArg NodeId.index hmn
  have hnode : ∀ n : NodeId, n.index < s.nodeCount → n.text ∈ Dot.declared doc := by
    intro n hn
    rw [s.declared_dot.mem_iff]
    exact List.mem_append_right _ (List.mem_map.mpr ⟨n.index, List.mem_range.mpr hn, rfl⟩)
  have hsub : ∀ c ∈ g.clusters, c.vertices ⊆ g.vertices :=
    fun c hc v hv => List.mem_flatMap.mpr ⟨c, hc, hv⟩
  refine ⟨Graph.read_dot s, ?_, s.declared_dot, rfl, ?_, Graph.edges_document g s,
    s.length_edges_graph, s.points_graph, ?_, ?_⟩
  · rw [s.declared_dot.nodup_iff]
    exact hvalid.nodup_names
  · intro e he
    rw [Graph.edges_document g s] at he
    rcases List.mem_append.mp he with he | he
    · obtain ⟨edge, hedge, rfl⟩ := List.mem_map.mp he
      exact ⟨hnode _ (hused edge hedge).1, hnode _ (hused edge hedge).2⟩
    · -- the tie of a point ends in a grid of the solution
      obtain ⟨v, hv, rfl⟩ := List.mem_map.mp he
      have hid : v.id ∈ g.vertices.map Graph.Vertex.id ++ g.points.map Graph.PointVertex.id :=
        List.mem_append_right _ (List.mem_map_of_mem hv)
      obtain ⟨i, hi, hindex⟩ := List.mem_map.mp (hdeclared.mem_iff.mp hid)
      have hpoint : v.point ∈ s.equations.flatMap Equation.points := by
        rw [← List.mem_eraseDups, ← Solution.points, ← s.points_graph]
        exact List.mem_map_of_mem hv
      obtain ⟨e, hequation, hp⟩ := List.mem_flatMap.mp hpoint
      have hgrid := (hvalid.points e hequation v.point hp).1
      refine ⟨hnode _ (hindex ▸ List.mem_range.mp hi), ?_⟩
      rw [s.declared_dot.mem_iff]
      exact List.mem_append_left _ (List.mem_map_of_mem ((hvalid.lookup _ _).mp hgrid).1)
  · intro c hc v hv op hop
    obtain ⟨equals, _, _, vs, hvertices, _, _, _, _, _, hfed⟩ := s.sound_graph.2 c hc
    rw [hvertices] at hv
    rcases List.mem_cons.mp hv with rfl | hv
    · cases hop
    · exact hfed v hv op hop
  · intro i e he
    obtain ⟨c, hc, hindex, rfl⟩ := s.clusters_graph he
    have hmem : c ∈ g.clusters := List.mem_of_getElem? hc
    obtain ⟨equals, target, root, vs, hvertices, hlabels, hout, htarget, hin, htree, _⟩ :=
      s.sound_graph.2 c hmem
    have htree : Graph.Unfolds g.vertices g.points g.edges root c.equation.rhs := by
      apply htree.mono _ (List.Subset.refl _) fun _ _ => rfl
      intro v hv
      apply hsub c hmem
      rw [hvertices]
      exact List.mem_cons_of_mem _ hv
    refine ⟨c, equals, target, root, vs, hc, hindex, rfl, hvertices, hlabels, hout, htarget, hin, ?_⟩
    intro t
    constructor
    · exact fun ht => ht.unique hnodup htree
    · rintro rfl
      exact htree

end Stencil
