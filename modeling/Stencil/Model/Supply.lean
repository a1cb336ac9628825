/-!
# Fresh names

Graph nodes and temporaries are numbered in the order in which they are needed, each kind from zero,
so that the same input always gets the same names.
-/

namespace Stencil

/-- A node of a graph. -/
structure NodeId where
  index : Nat
  deriving DecidableEq, Repr

/-- A temporary of a kernel. -/
structure Temp where
  index : Nat
  deriving DecidableEq, Repr

def NodeId.text (n : NodeId) : String := "n" ++ toString n.index

def Temp.text (t : Temp) : String := "temp" ++ toString t.index

/-- How many names of each kind have been handed out. -/
structure Supply where
  nodes : Nat
  temps : Nat
  deriving DecidableEq, Repr

namespace Supply

/-- Nothing has been handed out. -/
def full : Supply := ⟨0, 0⟩

/-- The next node, and the supply without it. -/
def takeNode (s : Supply) : NodeId × Supply := (⟨s.nodes⟩, { s with nodes := s.nodes + 1 })

/-- The next temporary, and the supply without it. -/
def takeTemp (s : Supply) : Temp × Supply := (⟨s.temps⟩, { s with temps := s.temps + 1 })

end Supply

end Stencil
