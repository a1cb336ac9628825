import Mathlib
import Stencil.Proofs.Addresses

/-!
# Names of solutions in generated code

The code of a header is its lines without those that are comments (`codeLines`). A header has the name
of its solution in three places: with underscores in the name of the namespace, in the fingerprint,
which shows none of it, and as it is in a comment (`Header.lines_named`). The comment ends where the line
ends. So what follows a line end in the name *spills* into the code (`spilled`), and this is all that
two headers can differ in if the names agree up to underscores.
-/

namespace Stencil.Code

/-! ## Lines of code -/

/-- The lines of a text, as only `\n` ends a line. -/
def textLines (text : String) : List (List Char) := text.toList.splitOn '\n'

/-- The line is a comment as a whole. -/
def isComment (line : List Char) : Bool := ['/', '/'].isPrefixOf line

/-- **The code of a text**: its lines without those that are comments. -/
def codeLines (text : String) : List (List Char) := (textLines text).filter (!isComment ·)

/-- What of a text is code if the text goes on from the start of a comment. -/
def spilled (text : String) : List (List Char) := (textLines text).tail.filter (!isComment ·)

theorem codeLines_append_newline (a b : String) :
    codeLines (a ++ "\n" ++ b) = codeLines a ++ codeLines b := by
  have hlines : (a ++ "\n" ++ b).toList = a.toList ++ '\n' :: b.toList := by simp
  unfold codeLines textLines
  rw [hlines, List.splitOn_append_cons_self, List.filter_append]

/-- The code of lines, each of which may have line ends of its own. -/
theorem codeLines_unlines (lines : List String) :
    codeLines (unlines lines) = lines.flatMap codeLines ++ [[]] := by
  unfold unlines
  induction lines with
  | nil => rfl
  | cons line lines ih =>
    rw [List.map_cons, String.join_cons, codeLines_append_newline, ih, List.flatMap_cons,
      List.append_assoc]

/-- **A comment ends with its line**, so that the other lines of a name are code. -/
theorem codeLines_comment (text : String) : codeLines ("//" ++ text) = spilled text := by
  have hlines : ("//" ++ text).toList = '/' :: '/' :: text.toList := by simp
  unfold codeLines spilled textLines
  rw [hlines, List.splitOn_cons_eq_if_modifyHead, List.splitOn_cons_eq_if_modifyHead,
    if_neg (by decide), if_neg (by decide)]
  cases hsplit : text.toList.splitOn '\n' with
  | nil => exact absurd hsplit (List.splitOn_ne_nil _ _)
  | cons first others =>
    simp [isComment]

theorem tail_splitOn_append {front : List Char} (h : '\n' ∉ front) (cs : List Char) :
    ((front ++ cs).splitOn '\n').tail = (cs.splitOn '\n').tail := by
  induction front with
  | nil => rfl
  | cons c front ih =>
    have hc : c ≠ '\n' := fun hc => h (hc ▸ List.mem_cons_self)
    rw [List.cons_append, List.splitOn_cons_eq_if_modifyHead, if_neg (by simpa using hc),
      List.tail_modifyHead]
    exact ih fun hmem => h (List.mem_cons_of_mem c hmem)

/-- What stands in the first line does not spill. -/
theorem spilled_append {front : String} (h : '\n' ∉ front.toList) (text : String) :
    spilled (front ++ text) = spilled text := by
  unfold spilled textLines
  rw [String.toList_append, tail_splitOn_append h]

theorem spilled_eq_nil {text : String} (h : '\n' ∉ text.toList) : spilled text = [] := by
  unfold spilled textLines
  rw [List.splitOn_eq_singleton h]
  rfl

end Stencil.Code

namespace Stencil

open Code

/-! ## Where a header has the name -/

theorem Digest.newline_not_mem_hex (bytes : List UInt8) : '\n' ∉ (Digest.hex bytes).toList := by
  have hdigit : ∀ n < 16, Nat.digitChar n ≠ '\n' := by decide
  intro h
  rw [Digest.hex, String.toList_ofList, List.mem_flatMap] at h
  obtain ⟨b, _, hb⟩ := h
  have hlt := b.toNat_lt
  rcases List.mem_pair.mp hb with hb | hb
  · exact hdigit _ (by omega) hb.symm
  · exact hdigit _ (by omega) hb.symm

namespace Header

open Calc (Plan)

/-- **Where a header has the name of its solution**: as it is in a comment, in the fingerprint, and for
    the rest up to underscores. -/
theorem lines_named (s : Solution) (plan : Plan) (kernels : List Kernel) :
    ∃ front middle back : List String, ∀ name, sanitize name = sanitize s.name →
      lines { s with name := name } plan kernels
        = front ++ ("//" ++ (" solution: " ++ name))
          :: (middle ++ ("//" ++ (" fingerprint: " ++ ({ s with name := name }).fingerprint)) :: back) := by
  -- of the banner, the third line has the name and the fifth one the fingerprint
  refine ⟨(banner s plan).take 2, ((banner s plan).drop 3).take 1,
    (banner s plan).drop 5 ++ (preamble s plan ++ (kernels.flatMap (equation plan)
      ++ (driver plan kernels.length ++ ["\x7d // namespace " ++ namespaceName s]))), ?_⟩
  intro name hname
  have hnamespace : namespaceName { s with name := name } = namespaceName s :=
    congrArg ("stencil_" ++ ·) hname
  have hpreamble : preamble { s with name := name } plan = preamble s plan := by
    unfold preamble
    rw [hnamespace]
  have hsolution : "// solution: " = "//" ++ " solution: " := by decide
  have hfingerprint : "// fingerprint: " = "//" ++ " fingerprint: " := by decide
  unfold lines
  rw [hnamespace, hpreamble, ← String.append_assoc, ← hsolution, ← String.append_assoc, ← hfingerprint]
  simp only [List.append_assoc]
  rfl

/-- **The code of a header** is what the name spills, between parts that have the name up to
    underscores. -/
theorem codeLines_lines (s : Solution) (plan : Plan) (kernels : List Kernel) :
    ∃ front back, ∀ name, sanitize name = sanitize s.name →
      codeLines (unlines (lines { s with name := name } plan kernels))
        = front ++ (spilled name ++ back) := by
  obtain ⟨front, middle, back, hlines⟩ := lines_named s plan kernels
  refine ⟨front.flatMap codeLines, middle.flatMap codeLines ++ back.flatMap codeLines ++ [[]], ?_⟩
  intro name hname
  have hsolution : '\n' ∉ " solution: ".toList := by decide
  have hfingerprint : '\n' ∉ (" fingerprint: " ++ ({ s with name := name }).fingerprint).toList := by
    rw [String.toList_append, List.mem_append, not_or]
    exact ⟨by decide, Digest.newline_not_mem_hex _⟩
  rw [hlines name hname, codeLines_unlines, List.flatMap_append, List.flatMap_cons,
    List.flatMap_append, List.flatMap_cons, codeLines_comment, codeLines_comment,
    spilled_append hsolution, spilled_eq_nil hfingerprint]
  simp only [List.nil_append, List.append_assoc]

end Header

/-! ## Two names -/

namespace Solution

variable {s : Solution} {share : Bool} {kernels : List Kernel}

theorem header_of_lower (h : s.lower share = .ok kernels) (t : Target) :
    s.header t share = .ok (unlines (Header.lines s (.of s t) kernels)) := by
  rw [header, h]
  rfl

/-- **The code of two headers whose solutions differ in their names** is the same but for what the names
    spill. -/
theorem exists_codeLines_header {name : String} (hname : sanitize name = sanitize s.name)
    (hlower : s.lower share = .ok kernels) (t : Target) :
    ∃ h h' front back, s.header t share = .ok h
      ∧ ({ s with name := name }).header t share = .ok h'
      ∧ codeLines h = front ++ (spilled s.name ++ back)
      ∧ codeLines h' = front ++ (spilled name ++ back) := by
  have hlower' : ({ s with name := name }).lower share = .ok kernels := hlower
  obtain ⟨front, back, hcode⟩ := Header.codeLines_lines s (.of s t) kernels
  exact ⟨_, _, front, back, header_of_lower hlower t, header_of_lower hlower' t,
    hcode s.name rfl, hcode name hname⟩

/-- **What a name does to the code.** Let two solutions differ in their names only, and let the names
    agree up to underscores. For every target, with shared values or without, the one is rendered
    exactly if the other is. Their code is the same up to what the names spill. So it is the same
    exactly if they spill the same lines, which holds of names in one line. -/
theorem names_reach_code_iff (s₁ s₂ : Solution) (hsame : { s₁ with name := s₂.name } = s₂)
    (hname : sanitize s₁.name = sanitize s₂.name) (t : Target) (share : Bool) :
    (∀ e, s₁.header t share = .error e ↔ s₂.header t share = .error e)
    ∧ ∀ h₁ h₂, s₁.header t share = .ok h₁ → s₂.header t share = .ok h₂ →
        (∃ front back, codeLines h₁ = front ++ (spilled s₁.name ++ back)
          ∧ codeLines h₂ = front ++ (spilled s₂.name ++ back))
        ∧ (codeLines h₁ = codeLines h₂ ↔ spilled s₁.name = spilled s₂.name)
        ∧ ('\n' ∉ s₁.name.toList → '\n' ∉ s₂.name.toList → codeLines h₁ = codeLines h₂) := by
  -- lowering does not read the name
  have hlower : s₂.lower share = s₁.lower share := by
    rw [← hsame]
    rfl
  cases hkernels : s₁.lower share with
  | error err =>
    have hrefused : ∀ s : Solution, s.lower share = .error err → s.header t share = .error err := by
      intro s hs
      rw [header, hs]
      rfl
    have h₁ := hrefused s₁ hkernels
    have h₂ := hrefused s₂ (hlower.trans hkernels)
    rw [h₁, h₂]
    exact ⟨fun e => Iff.rfl, fun _ _ h => by cases h⟩
  | ok kernels =>
    obtain ⟨h₁, h₂, front, back, hheader₁, hheader₂, hcode₁, hcode₂⟩ :=
      exists_codeLines_header hname.symm hkernels t
    rw [hsame] at hheader₂
    have hiff : codeLines h₁ = codeLines h₂ ↔ spilled s₁.name = spilled s₂.name := by
      rw [hcode₁, hcode₂, List.append_cancel_left_eq, List.append_cancel_right_eq]
    rw [hheader₁, hheader₂]
    constructor
    · intro e
      constructor <;> rintro ⟨⟩
    rintro _ _ ⟨⟩ ⟨⟩
    refine ⟨⟨front, back, hcode₁, hcode₂⟩, hiff, ?_⟩
    intro hline₁ hline₂
    rw [hiff, spilled_eq_nil hline₁, spilled_eq_nil hline₂]

/-- A second line that is a comment does not spill. -/
theorem names_reach_code_iff_comment :
    let s₁ := ((Draft.new "coast\n//1" none).after Call.farWind).solution
    let s₂ := ((Draft.new "coast___1" none).after Call.farWind).solution
    { s₁ with name := s₂.name } = s₂ ∧ sanitize s₁.name = sanitize s₂.name
      ∧ ∃ h₁ h₂, s₁.header .avx512 true = .ok h₁ ∧ s₂.header .avx512 true = .ok h₂
        ∧ codeLines h₁ = codeLines h₂ := by
  intro s₁ s₂
  -- the two solutions differ in their names alone, which are the same after cleaning
  have hsame : { s₁ with name := s₂.name } = s₂ := by decide
  have hname : sanitize s₁.name = sanitize s₂.name := by decide
  have hequations : s₁.equations = [.farWind] := by decide
  have hlower : s₁.lower true = .ok [Equation.farWind.kernel 0 true] := by
    rw [Solution.lower, hequations, lowerFrom, Equation.lower_eq_kernel (by decide) 0 true]
    rfl
  obtain ⟨h₁, h₂, _, _, hheader₁, hheader₂, _⟩ :=
    exists_codeLines_header hname.symm hlower .avx512
  rw [hsame] at hheader₂
  obtain ⟨_, hcode⟩ := names_reach_code_iff s₁ s₂ hsame hname .avx512 true
  obtain ⟨_, hiff, _⟩ := hcode h₁ h₂ hheader₁ hheader₂
  exact ⟨hsame, hname, h₁, h₂, hheader₁, hheader₂, hiff.mpr (by decide)⟩

/-- **A name that spills a declaration**: cleaned of what is no letter the two names are one, and
    yet the code differs. -/
theorem name_declares_trap :
    let s₁ := ((Draft.new "heat\nint trap;" none).after []).solution
    let s₂ := ((Draft.new "heat_int_trap_" none).after []).solution
    { s₁ with name := s₂.name } = s₂ ∧ sanitize s₁.name = sanitize s₂.name
      ∧ ∃ h₁ h₂, s₁.header .cpp true = .ok h₁ ∧ s₂.header .cpp true = .ok h₂
        ∧ "int trap;".toList ∈ codeLines h₁ ∧ codeLines h₁ ≠ codeLines h₂ := by
  intro s₁ s₂
  have hsame : { s₁ with name := s₂.name } = s₂ := by decide
  have hname : sanitize s₁.name = sanitize s₂.name := by decide
  have hspilled₁ : spilled s₁.name = ["int trap;".toList] := by decide
  have hspilled₂ : spilled s₂.name = [] := by decide
  have hlower : s₁.lower true = .ok [] := rfl
  obtain ⟨h₁, h₂, front, back, hheader₁, hheader₂, hcode₁, hcode₂⟩ :=
    exists_codeLines_header hname.symm hlower .cpp
  rw [hsame] at hheader₂
  refine ⟨hsame, hname, h₁, h₂, hheader₁, hheader₂, ?_, ?_⟩
  · rw [hcode₁, hspilled₁]
    simp
  · rw [hcode₁, hcode₂, hspilled₁, hspilled₂]
    intro h
    have hlength := congrArg List.length h
    simp at hlength

end Solution

end Stencil
