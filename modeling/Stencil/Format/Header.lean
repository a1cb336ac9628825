import Stencil.Format.Calc
import Stencil.Format.Lines
import Stencil.Manifest

/-!
# C++ headers

A header for a target: one struct an equation, whose `calc` computes the equation at one point of
the domain, and a struct `Stencil`, whose `calc_all` runs them in order. Storage is supplied by the
caller through a template parameter with one member function a grid.
-/

namespace Stencil

namespace Header

open Calc (Plan)

/-- The parameters that stand for dimensions. -/
def paramText (plan : Plan) : String := String.join (plan.params.map (", idx_t " ++ ·))

/-- The arguments that stand for dimensions. -/
def argText (plan : Plan) : String := String.join (plan.params.map (", " ++ ·))

/-- The namespace of a solution. -/
def namespaceName (s : Solution) : String := "stencil_" ++ sanitize s.name

/-- What the header is, in comments. -/
def banner (s : Solution) (plan : Plan) : List String :=
  ["// Generated by stencilc " ++ version ++ ". Do not edit.",
   "// target: " ++ plan.target.id ++ " (" ++ plan.target.description ++ ")",
   "// solution: " ++ s.name,
   "// element: " ++ toString plan.width.bytes ++ " bytes, "
     ++ toString (plan.target.lanes plan.width.bytes) ++ " lane(s)",
   "// fingerprint: " ++ s.fingerprint,
   "//",
   "// Grids must provide `real_t* <grid>(idx_t...)` for every grid below."]
  ++ s.grids.map fun g => "//   " ++ g.text

/-- The name of the element type. -/
def elementType : Width → String
  | .single => "float"
  | .double => "double"

/-- Includes, the namespace and its types. -/
def preamble (s : Solution) (plan : Plan) : List String :=
  ["", "#pragma once", ""]
  ++ (if plan.target.isVector then ["#include <immintrin.h>"] else [])
  ++ ["#include <cstdint>",
      "#include <limits>",
      "",
      "namespace " ++ namespaceName s ++ " \x7b",
      "",
      "typedef " ++ elementType plan.width ++ " real_t;"]
  ++ (if plan.target.isVector
      then ["typedef " ++ plan.target.vectorType plan.width.bytes ++ " real_vec_t;"] else [])
  ++ ["typedef std::int64_t idx_t;",
      "constexpr idx_t VLEN = " ++ toString (plan.target.lanes plan.width.bytes) ++ ";",
      ""]

/-- The struct of a kernel. -/
def equation (plan : Plan) (k : Kernel) : List String :=
  ["// " ++ k.equation.text,
   "struct Equation_" ++ toString k.index ++ " \x7b",
   "    template<typename Grids>",
   "    static inline void calc(Grids& grids" ++ paramText plan ++ ") \x7b"]
  ++ plan.bodyLines k
  ++ ["    \x7d", "\x7d;", ""]

/-- What keeps parameters from being unused where there is no equation. -/
def unusedParams (plan : Plan) : List String :=
  "        (void)grids;" :: plan.params.map fun p => "        (void)" ++ p ++ ";"

/-- The struct that runs all equations. -/
def driver (plan : Plan) (count : Nat) : List String :=
  ["struct Stencil \x7b",
   "    static constexpr int num_equations = " ++ toString count ++ ";",
   "",
   "    template<typename Grids>",
   "    static inline void calc_all(Grids& grids" ++ paramText plan ++ ") \x7b"]
  ++ (if count = 0 then unusedParams plan else [])
  ++ ((List.range count).map fun i =>
        "        Equation_" ++ toString i ++ "::calc(grids" ++ argText plan ++ ");")
  ++ ["    \x7d", "\x7d;", ""]

/-- The lines of a header. -/
def lines (s : Solution) (plan : Plan) (kernels : List Kernel) : List String :=
  banner s plan ++ preamble s plan ++ kernels.flatMap (equation plan)
    ++ driver plan kernels.length ++ ["\x7d // namespace " ++ namespaceName s]

end Header

/-- The header of a solution for a target. -/
def Solution.header (s : Solution) (t : Target) (share : Bool) : Except Error String :=
  (s.lower share).map fun kernels => unlines (Header.lines s (.of s t) kernels)

end Stencil
