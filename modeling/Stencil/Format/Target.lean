/-!
# Targets

The instruction sets that code is generated for. A target without registers for vectors gets scalar
code.
-/

namespace Stencil

structure Target where
  id : String
  description : String
  /-- The width of a vector register in bits, zero for scalar code. -/
  vectorBits : Nat
  /-- What the names of the vector instructions start with. -/
  family : String
  deriving DecidableEq, Repr

namespace Target

def cpp : Target := ⟨"cpp", "portable scalar C++", 0, ""⟩
def avx : Target := ⟨"avx", "Intel AVX, 256-bit vectors", 256, "_mm256"⟩
def avx2 : Target := ⟨"avx2", "Intel AVX2, 256-bit vectors", 256, "_mm256"⟩
def avx512 : Target := ⟨"avx512", "Intel AVX-512, 512-bit vectors", 512, "_mm512"⟩
def knl : Target := ⟨"knl", "Intel Xeon Phi (Knights Landing), 512-bit vectors", 512, "_mm512"⟩

def all : List Target := [cpp, avx, avx2, avx512, knl]

/-- The target with the given id. -/
def find? (id : String) : Option Target := all.find? (·.id == id)

def isVector (t : Target) : Bool := 0 < t.vectorBits

/-- The bits of an element of the given bytes, in a 32-bit word. -/
def elementBits (elementBytes : Nat) : Nat := 8 * elementBytes % 0x100000000

/-- How many elements of the given bytes a register holds. Scalar code has one element at a time. -/
def lanes (t : Target) (elementBytes : Nat) : Nat :=
  if t.isVector then t.vectorBits / elementBits elementBytes else 1

/-- The lanes of a target, if elements have a size to divide a register by. -/
def lanes? (t : Target) (elementBytes : Nat) : Option Nat :=
  if t.isVector && elementBits elementBytes == 0 then none else some (t.lanes elementBytes)

/-- The type of a register, or of an element in scalar code. -/
def vectorType (t : Target) (elementBytes : Nat) : String :=
  if t.isVector then
    "__m" ++ toString t.vectorBits ++ (if elementBytes = 8 then "d" else "")
  else
    "real_t"

/-- The name of a vector instruction. -/
def intrinsic (t : Target) (op : String) (elementBytes : Nat) : String :=
  t.family ++ "_" ++ op ++ "_" ++ (if elementBytes = 8 then "pd" else "ps")

end Target

end Stencil
