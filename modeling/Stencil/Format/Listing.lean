import Stencil.Format.Lines
import Stencil.Kernel

/-!
# Pseudo-code

The kernels of a solution as they are, without a target.
-/

namespace Stencil

namespace Listing

def heading (s : Solution) (share : Bool) : List String :=
  ["// Stencil solution '" ++ s.name ++ "'.",
   "// " ++ toString s.grids.length ++ " grid(s), " ++ toString s.width.bytes
     ++ "-byte elements, cse " ++ (if share then "on" else "off") ++ "."]

/-- What the kernels have together of something that is counted for each. -/
def total (kernels : List Kernel) (count : Kernel → Nat) : Nat :=
  kernels.foldr (fun k n => count k + n) 0

def totals (kernels : List Kernel) : String :=
  "// " ++ toString kernels.length ++ " equation(s), "
    ++ toString (total kernels Kernel.numLoads) ++ " load(s), "
    ++ toString (total kernels Kernel.numOps) ++ " operation(s)."

end Listing

/-- The kernels of a solution with a heading and their totals. -/
def Solution.listing (s : Solution) (share : Bool) : Except Error String :=
  (s.lower share).map fun kernels =>
    unlines (Listing.heading s share)
      ++ String.join (kernels.map fun k => "\n" ++ k.text)
      ++ unlines ["", Listing.totals kernels]

end Stencil
