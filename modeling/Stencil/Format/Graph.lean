import Stencil.Format.Lines
import Stencil.Model.Solution
import Stencil.Model.Supply

/-!
# Dataflow graphs

The equations of a solution as a graph: operands flow into operators, the right-hand side into an
EQUALS node, and that node writes the point on the left. A point has one node, wherever it is read
or written; operators and constants have one node for each place. Each point is also tied to its
grid.
-/

namespace Stencil

namespace Graph

/-- What a node of an equation stands for. -/
inductive Label where
  | equals
  | operator (op : Operator)
  | const (value : Double)
  deriving DecidableEq

structure Vertex where
  id : NodeId
  label : Label
  deriving DecidableEq

/-- A flow from one node to another. -/
structure Edge where
  source : NodeId
  target : NodeId
  deriving DecidableEq

/-- A point and its node. -/
structure PointVertex where
  id : NodeId
  point : Point
  deriving DecidableEq

/-- An equation with its own nodes, those of points apart. -/
structure Cluster where
  index : Nat
  equation : Equation
  vertices : List Vertex
  deriving DecidableEq

/-! ## Building -/

/-- The graph so far, and the nodes of the equation at hand. -/
structure Builder where
  supply : Supply
  points : List PointVertex
  vertices : List Vertex
  edges : List Edge
  deriving DecidableEq

namespace Builder

def start : Builder := ⟨.full, [], [], []⟩

/-- A new node of the equation at hand. -/
def addVertex (b : Builder) (label : Label) : NodeId × Builder :=
  let (id, supply) := b.supply.takeNode
  (id, { b with supply := supply, vertices := b.vertices ++ [⟨id, label⟩] })

/-- The node of a point, a new one if it has none yet. -/
def pointNode (b : Builder) (p : Point) : NodeId × Builder :=
  match b.points.find? (·.point == p) with
  | some v => (v.id, b)
  | none =>
    let (id, supply) := b.supply.takeNode
    (id, { b with supply := supply, points := b.points ++ [⟨id, p⟩] })

def addEdge (b : Builder) (source target : NodeId) : Builder :=
  { b with edges := b.edges ++ [⟨source, target⟩] }

/-- The node of an expression. An operator's node comes before those of its operands. -/
def visit : Expr → Builder → NodeId × Builder
  | .const v, b => b.addVertex (.const v)
  | .point p, b => b.pointNode p
  | .binary op lhs rhs, b =>
    let (id, b) := b.addVertex (.operator op)
    let (l, b) := visit lhs b
    let b := b.addEdge l id
    let (r, b) := visit rhs b
    (id, b.addEdge r id)

/-- Adds an equation and gives its cluster. -/
def addEquation (b : Builder) (index : Nat) (e : Equation) : Cluster × Builder :=
  let (equals, b) := ({ b with vertices := [] }).addVertex .equals
  let (lhs, b) := b.pointNode e.lhs
  let b := b.addEdge equals lhs
  let (root, b) := visit e.rhs b
  let b := b.addEdge root equals
  (⟨index, e, b.vertices⟩, b)

/-- Adds equations that are numbered from the given index on. -/
def addEquations (b : Builder) : Nat → List Equation → List Cluster × Builder
  | _, [] => ([], b)
  | index, e :: es =>
    let (cluster, b) := b.addEquation index e
    let (clusters, b) := b.addEquations (index + 1) es
    (cluster :: clusters, b)

end Builder

end Graph

/-- The points, the equations with their nodes, and the flows between nodes. -/
structure Graph where
  points : List Graph.PointVertex
  clusters : List Graph.Cluster
  edges : List Graph.Edge
  deriving DecidableEq

/-- The graph of a solution. -/
def Solution.graph (s : Solution) : Graph :=
  let (clusters, b) := Graph.Builder.start.addEquations 0 s.equations
  ⟨b.points, clusters, b.edges⟩

/-! ## Text -/

namespace Graph

/-- Text as it stands between double quotes. -/
def escape (s : String) : String :=
  String.join (s.toList.map fun c =>
    if c = '\\' then "\\\\" else if c = '"' then "\\\"" else String.singleton c)

/-- How a node is drawn. -/
def attributes (shape color label : String) : String :=
  "shape=" ++ shape ++ ", style=filled, fillcolor=" ++ color ++ ", label=\"" ++ escape label ++ "\""

def Label.attributes : Label → String
  | equals => Graph.attributes "doubleoctagon" "lightblue" "EQUALS"
  | operator op => Graph.attributes "circle" "lightgreen" op.symbol
  | const v => Graph.attributes "plaintext" "white" v.text

/-- The node of a grid. -/
def gridNode (g : Grid) : String := "grid_" ++ sanitize g.name

def gridLine (g : Grid) : String :=
  "    " ++ gridNode g ++ " [" ++ attributes "cylinder" "lightsalmon" g.text ++ "];"

def pointLine (v : PointVertex) : String :=
  "    " ++ v.id.text ++ " [" ++ attributes "box" "lightyellow" v.point.text ++ "];"

def vertexLine (v : Vertex) : String :=
  "        " ++ v.id.text ++ " [" ++ v.label.attributes ++ "];"

def edgeLine (e : Edge) : String := "    " ++ e.source.text ++ " -> " ++ e.target.text ++ ";"

def storageLine (v : PointVertex) : String :=
  "    " ++ v.id.text ++ " -> " ++ gridNode v.point.grid
    ++ " [style=dashed, arrowhead=none, color=gray60];"

def clusterLines (c : Cluster) : List String :=
  ["", "    subgraph cluster_eq" ++ toString c.index ++ " \x7b",
   "        label=\"" ++ escape c.equation.text ++ "\";",
   "        style=rounded;",
   "        color=gray50;"]
  ++ c.vertices.map vertexLine
  ++ ["    \x7d"]

/-- Lines under a title, nothing if there are none. -/
def titled (title : String) (lines : List String) : List String :=
  if lines.isEmpty then [] else ["", "    // " ++ title] ++ lines

/-- The lines of a graph. -/
def lines (g : Graph) (s : Solution) : List String :=
  ["digraph \"" ++ escape s.name ++ "\" \x7b",
   "    rankdir=BT;",
   "    node [fontname=\"Helvetica\", fontsize=10];",
   "    edge [fontname=\"Helvetica\", fontsize=9];"]
  ++ titled "Grids" (s.grids.map gridLine)
  ++ titled "Points" (g.points.map pointLine)
  ++ g.clusters.flatMap clusterLines
  ++ titled "Dataflow" (g.edges.map edgeLine)
  ++ titled "Storage" (g.points.map storageLine)
  ++ ["\x7d"]

end Graph

/-- The graph of a solution in the DOT language. -/
def Solution.dot (s : Solution) : String := unlines (s.graph.lines s)

end Stencil
