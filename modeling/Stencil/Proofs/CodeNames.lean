import Mathlib
import Stencil.Proofs.Addresses
import Stencil.Proofs.Literals

/-!
# Names that generated code declares

What a line of generated code declares is read off its tokens. A comment declares nothing. What a
loop declares is known in the loop only, where it hides what the function declares under the same
name.

Names that come from elsewhere stand in addresses, where no type goes before them, so that they are
never taken for declarations (`Code.declared_address`); literals have no blanks (`Code.isTight`). So
a line declares what its statement does (`Calc.Plan.names_line`).

There are two steps to this. First a statement is written as certain tokens (`Plan.lex_stmtText`),
one case for each kind of statement and each put together from the pieces of its text. Then the
declarations among these tokens are counted (`Plan.declared_tokens`), where the pieces that declare
nothing drop out by lemmas of their own: addresses, intrinsics, literals and symbols.

A literal is the odd piece: its tokens depend on its value. It is never read at all. It has no blank,
so that no two words of it stand side by side, and no `&`; such a text declares nothing, whatever
else it is (`declared_lex_append`).
-/

namespace Stencil

namespace Code

/-! ## Names that lines declare -/

/-- The names that the tokens of a line declare in the block that the line stands in. A comment
    declares nothing, and what a loop declares belongs to the loop. -/
def declaredHere (ts : List String) : List String :=
  if ts.head? = some "/" ∨ ts.head? = some "for" then [] else declared ts

/-- The names that the tokens of a line declare in a loop. -/
def declaredInLoop (ts : List String) : List String :=
  if ts.head? = some "for" then declared ts else []

/-- The names that lines declare in the block that they stand in. -/
def blockNames (lines : List String) : List String :=
  lines.flatMap fun line => declaredHere (lex line)

/-- The names that lines declare in loops. -/
def loopNames (lines : List String) : List String :=
  lines.flatMap fun line => declaredInLoop (lex line)

theorem blockNames_append (ls ms : List String) :
    blockNames (ls ++ ms) = blockNames ls ++ blockNames ms :=
  List.flatMap_append

theorem loopNames_append (ls ms : List String) :
    loopNames (ls ++ ms) = loopNames ls ++ loopNames ms :=
  List.flatMap_append

/-- The names of types and constants that functions use. -/
def outerNames : List String := ["VLEN", "idx_t", "real_t", "real_vec_t"]

/-- **No name is declared twice or hides another one.** -/
structure NamesApart (lines : List String) : Prop where
  /-- The function declares no name twice. -/
  distinct : (blockNames lines).Nodup
  /-- No loop hides a name of the function. -/
  loops : ∀ name ∈ loopNames lines, name ∉ blockNames lines
  /-- Nothing hides a name from outside. -/
  outer : ∀ name ∈ blockNames lines ++ loopNames lines, name ∉ outerNames

/-! ## Text that declares nothing -/

/-- The tokens do not start with a name. -/
def NoName (ts : List String) : Prop := ∀ t ∈ ts.head?, isIdentifier t = false

/-- Tokens that begin with a symbol begin with no name, and can stand after a type without being
    declared. -/
theorem noName_cons {t : String} (h : isIdentifier t = false) (ts : List String) :
    NoName (t :: ts) := by
  intro t' ht'
  rwa [← Option.some.inj ht']

/-- A token before tokens that begin with no name declares nothing, not even if it is a type. -/
theorem declared_cons {ts : List String} (h : NoName ts) (t : String) :
    declared (t :: ts) = declared ts := by
  cases ts with
  | nil => rfl
  | cons symbol ts => exact declared_symbol (h symbol rfl) t ts

/-- A symbol after a name ends what the name could declare. -/
theorem declared_before {symbol : String} (h : isIdentifier symbol = false ∧ symbol ∉ typeEnds)
    (name : String) (ts : List String) : declared (name :: symbol :: ts) = declared ts := by
  rw [declared_symbol h.1, declared_cons_of_not_mem h.2]

theorem singleton_not_mem_typeEnds {c : Char} (h : c ≠ '&') : String.singleton c ∉ typeEnds := by
  intro hmem
  simp only [typeEnds, List.mem_cons, List.not_mem_nil, or_false] at hmem
  rcases hmem with hc | hc | hc | hc <;> have hchars := congrArg String.toList hc
  · simp at hchars
  · simp at hchars
  · simp at hchars
  · exact h (by simpa using hchars)

theorem not_isIdentifier_singleton {c : Char} (h : isLetterOrDigit c = false) :
    isIdentifier (String.singleton c) = false := by
  have hletter : isLetter c = false := (Bool.or_eq_false_iff.mp h).1
  simp [isIdentifier, hletter]

theorem declared_close {f : Front} (h : NoName f.tokens) :
    declared f.close = declared f.tokens := by
  unfold Front.close
  split_ifs
  · rfl
  · exact declared_cons h _

/-- Text without blanks and without references. -/
def isTight (text : String) : Bool := text.toList.all fun c => c != ' ' && c != '&'

theorem isTight_append {a b : String} (ha : isTight a = true) (hb : isTight b = true) :
    isTight (a ++ b) = true := by
  rw [isTight, String.toList_append, List.all_append, Bool.and_eq_true]
  exact ⟨ha, hb⟩

/-- Text without blanks declares nothing, where no name follows. -/
theorem declared_lex_append {text : String} (h : isTight text = true) {ts : List String}
    (hts : NoName ts) : declared (lex text ++ ts) = declared ts := by
  -- going back over the text, the tokens behind the word start with a symbol
  have hread : ∀ cs : List Char, (∀ c ∈ cs, c ≠ ' ' ∧ c ≠ '&') →
      declared (cs.foldr Front.push ⟨[], ts⟩).tokens = declared ts
        ∧ NoName (cs.foldr Front.push ⟨[], ts⟩).tokens := by
    intro cs hcs
    induction cs with
    | nil => exact ⟨rfl, hts⟩
    | cons c cs ih =>
      obtain ⟨⟨hblank, href⟩, hcs⟩ := List.forall_mem_cons.mp hcs
      obtain ⟨hdeclared, hhead⟩ := ih hcs
      rw [List.foldr_cons, Front.push]
      by_cases hc : isLetterOrDigit c = true
      · rw [if_pos hc]
        exact ⟨hdeclared, hhead⟩
      · rw [if_neg hc, if_neg hblank]
        constructor
        · rw [declared_cons_of_not_mem (singleton_not_mem_typeEnds href), declared_close hhead,
            hdeclared]
        · exact noName_cons (not_isIdentifier_singleton (Bool.not_eq_true _ ▸ hc)) _
  obtain ⟨hdeclared, hhead⟩ := hread text.toList (by simpa [isTight] using h)
  have hclose : lex text ++ ts = (readBack text ⟨[], ts⟩).close :=
    (close_readBack (f := ⟨[], ts⟩) rfl).symm
  rw [hclose]
  exact (declared_close hhead).trans hdeclared

/-! ## Addresses and literals declare nothing -/

section

variable {ts : List String}

theorem declared_offset (hts : NoName ts) (o : Int64) :
    declared (offsetTokens o ++ ts) = declared ts ∧ NoName (offsetTokens o ++ ts) := by
  have hsign : ∀ sign ∈ ["+", "-"], sign ∉ typeEnds ∧ isIdentifier sign = false := by decide
  unfold offsetTokens
  by_cases hzero : o = 0
  · rw [if_pos hzero]
    exact ⟨rfl, hts⟩
  · rw [if_neg hzero]
    set sign := if 0 < o.toInt then "+" else "-" with hdef
    obtain ⟨htype, hname⟩ := hsign sign (by rw [hdef]; split_ifs <;> simp)
    constructor
    · exact (declared_cons_of_not_mem htype _).trans (declared_cons hts _)
    · exact noName_cons hname _

/-- An index declares nothing: its names stand after parentheses, commas and signs. -/
theorem declared_index (hts : NoName ts) (i : Calc.AddressIndex) :
    declared (indexTokens i ++ ts) = declared ts := by
  obtain ⟨hoffset, hhead⟩ := declared_offset hts i.offset
  rw [indexTokens, List.cons_append, List.append_assoc]
  cases i.lane with
  | false => exact (declared_cons hhead _).trans hoffset
  | true =>
    show declared (i.dim :: "+" :: "lane" :: (offsetTokens i.offset ++ ts)) = _
    rw [declared_before (by decide), declared_cons hhead, hoffset]

theorem declared_indices (hts : NoName ts) (indices : List Calc.AddressIndex) :
    declared (List.intercalate [","] (indices.map indexTokens) ++ ts) = declared ts := by
  induction indices with
  | nil => simp
  | cons i is ih =>
    cases is with
    | nil => simpa using declared_index hts i
    | cons i' is =>
      simp only [List.map_cons, List.intercalate_cons_cons, List.append_assoc] at ih ⊢
      have hcomma : ∀ ts, NoName ("," :: ts) := noName_cons rfl
      exact (declared_index (hcomma _) i).trans
        ((declared_cons_of_not_mem (by decide) _).trans ih)

/-- An address declares nothing, whatever follows: what stands before its names is no type. -/
theorem declared_address (a : Calc.Address) (ts : List String) :
    declared (callTokens ["grids", ".", a.grid] (a.indices.map indexTokens) ++ ts)
      = declared ts := by
  have hcall : callTokens ["grids", ".", a.grid] (a.indices.map indexTokens) ++ ts
      = "grids" :: "." :: a.grid :: "("
        :: (List.intercalate [","] (a.indices.map indexTokens) ++ ")" :: ts) := by
    simp [callTokens]
  rw [hcall, declared_before (by decide), declared_before (by decide),
    declared_indices (noName_cons rfl _), declared_cons_of_not_mem (by decide)]

end

end Code

open Code

/-- A numeral has digits, a point, the mark of a power of ten and signs. -/
theorem Numeral.Spelled.mem_text {n : Numeral} (h : n.Spelled) {c : Char} (hc : c ∈ n.text) :
    isDigit c = true ∨ c ∈ ['.', 'e', 'E', '+', '-'] := by
  rw [Numeral.text, List.mem_append, List.mem_append] at hc
  rcases hc with (hc | hc) | hc
  · exact Or.inl (h.whole c hc)
  · unfold Numeral.fractionText at hc
    split_ifs at hc with hnil
    · exact absurd hc List.not_mem_nil
    · rcases List.mem_cons.mp hc with rfl | hc
      · exact Or.inr (by decide)
      · exact Or.inl (h.fraction c hc)
  · cases hp : n.power with
    | none => simp [hp] at hc
    | some p =>
      obtain ⟨hmark, hsign, _, hdigits⟩ := h.power p hp
      have hc : c = p.mark ∨ c ∈ p.sign ∨ c ∈ p.digits := by
        simpa [hp, Numeral.Power.text] using hc
      rcases hc with rfl | hc | hc
      · rcases hmark with hm | hm <;> rw [hm] <;> exact Or.inr (by decide)
      · rcases hsign c hc with rfl | rfl <;> exact Or.inr (by decide)
      · exact Or.inl (hdigits c hc)

/-- A literal is written without blanks and without `&`, be it a numeral, an infinity or a NaN. -/
theorem Width.isTight_literal (w : Width) (v : Double) : isTight (w.literal v) = true := by
  have hsign : ∀ b : Bool, isTight (if b then "-" else "") = true := by decide
  unfold Width.literal
  dsimp only
  by_cases hnan : w.layout.infinity < w.narrow v
  · rw [if_pos hnan]
    rfl
  · rw [if_neg hnan]
    by_cases hinf : w.narrow v = w.layout.infinity
    · rw [if_pos hinf]
      exact isTight_append (hsign _) rfl
    · obtain ⟨n, hspelled, _, htext, _⟩ :=
        exists_numeral_of_literal w.even_binade (by omega : w.narrow v < w.layout.infinity)
      rw [if_neg hinf, Style.text]
      refine isTight_append (isTight_append (hsign _) ?_) (by cases w <;> rfl)
      rw [isTight, htext, List.all_eq_true]
      intro c hc
      -- a numeral has digits and the marks between its parts, and nothing else
      rcases hspelled.mem_text hc with hdigit | hmark
      · have hblank : c ≠ ' ' := by rintro rfl; exact absurd hdigit (by decide)
        have href : c ≠ '&' := by rintro rfl; exact absurd hdigit (by decide)
        simp [hblank, href]
      · have hall : ['.', 'e', 'E', '+', '-'].all (fun c => c != ' ' && c != '&') = true := rfl
        exact List.all_eq_true.mp hall c hmark

/-! ## Names of temporaries and of vector instructions -/

theorem isIdentifier_append {a b : String} (ha : isIdentifier a = true)
    (hb : ∀ c ∈ b.toList, isLetterOrDigit c = true) : isIdentifier (a ++ b) = true := by
  unfold isIdentifier at ha ⊢
  rw [String.toList_append]
  cases hcs : a.toList with
  | nil => simp [hcs] at ha
  | cons c cs =>
    obtain ⟨hc, hall⟩ : isLetter c = true ∧ cs.all isLetterOrDigit = true := by simpa [hcs] using ha
    simp only [List.cons_append, hc, List.all_append, hall, Bool.true_and]
    exact List.all_eq_true.mpr hb

/-- A temporary is a name of the language, and so can be declared. -/
theorem Temp.isIdentifier_text (t : Temp) : isIdentifier t.text = true :=
  isIdentifier_append rfl (isWord_toString t.index).chars

theorem Temp.lex_text (t : Temp) : lex t.text = [t.text] :=
  lex_word (isWord_of_isIdentifier t.isIdentifier_text)

/-- Different temporaries have different names, because the number of a temporary can be read off
    its name. -/
theorem Temp.text_injective : Function.Injective Temp.text := by
  rintro ⟨m⟩ ⟨n⟩ h
  have hdigits : (toString m).toList = (toString n).toList := by
    simpa [Temp.text] using congrArg String.toList h
  rw [toList_toString, toList_toString] at hdigits
  rw [Point.toDigits_injective hdigits]

namespace Calc

theorem isIdentifier_lanesName (t : Temp) : isIdentifier (lanesName t) = true :=
  have hsuffix : isIdentifier "_lanes" = true := rfl
  isIdentifier_append t.isIdentifier_text (isWord_of_isIdentifier hsuffix).chars

/-- The name of an array of lanes is one token, whichever temporary it is for. -/
theorem lex_lanesName (t : Temp) : lex (lanesName t) = [lanesName t] :=
  lex_word (isWord_of_isIdentifier (isIdentifier_lanesName t))

/-- An intrinsic is one token: its prefix and its suffix are letters, digits and underscores. -/
theorem Plan.lex_intrinsic {plan : Plan} (h : plan.target ∈ Target.all) {op : String}
    (hop : op.toList.all isLetterOrDigit = true) :
    lex (plan.intrinsic op) = [plan.intrinsic op] := by
  have hfamily : ∀ t ∈ Target.all, t.family.toList.all isLetterOrDigit = true := by decide
  have hsuffix :
      (if plan.width.bytes = 8 then "pd" else "ps").toList.all isLetterOrDigit = true := by
    split_ifs <;> rfl
  have hall : (plan.intrinsic op).toList.all isLetterOrDigit = true := by
    rw [Plan.intrinsic, Target.intrinsic]
    simp only [String.toList_append, List.all_append, hfamily _ h, hsuffix, Bool.true_and,
      Bool.and_true, Bool.and_eq_true]
    exact ⟨⟨rfl, hop⟩, rfl⟩
  refine lex_word ⟨?_, List.all_eq_true.mp hall⟩
  simp [Plan.intrinsic, Target.intrinsic]

/-- An intrinsic has an underscore in its name, and so is none of the words without one. -/
theorem Plan.intrinsic_ne (plan : Plan) (op : String) {other : String} (h : '_' ∉ other.toList) :
    plan.intrinsic op ≠ other := by
  rintro rfl
  apply h
  simp [Plan.intrinsic, Target.intrinsic]

/-! ## Tokens of statements -/

/-- The tokens of an address. -/
def Address.tokens (a : Address) : List String :=
  callTokens ["grids", ".", a.grid] (a.indices.map indexTokens)

/-- A loop over the lanes. -/
def loopTokens : List String :=
  ["for", "(", "idx_t", "lane", "=", "0", ";", "lane", "<", "VLEN", ";", "lane", "+", "+", ")"]

/-- The head of a loop over the lanes, which is the same for all targets. -/
theorem lex_laneLoop : lex laneLoop = loopTokens := by decide +kernel

def Plan.constantTokens (plan : Plan) (v : Double) : List String :=
  let literal := lex (plan.width.literal v)
  if plan.target.isVector then plan.intrinsic "set1" :: "(" :: (literal ++ [")"]) else literal

def Plan.computeTokens (plan : Plan) (op : Operator) (lhs rhs : Temp) : List String :=
  if plan.target.isVector then
    [plan.intrinsic op.mnemonic, "(", lhs.text, ",", rhs.text, ")"]
  else [lhs.text, op.symbol, rhs.text]

/-- The tokens of a statement. -/
def Plan.tokens (plan : Plan) : Stmt → List String
  | .note text => "/" :: "/" :: lex text
  | .constant dst v =>
    "const" :: plan.tempType :: dst.text :: "=" :: (plan.constantTokens v ++ [";"])
  | .compute dst op lhs rhs =>
    "const" :: plan.tempType :: dst.text :: "=" :: (plan.computeTokens op lhs rhs ++ [";"])
  | .loadOne dst a => "const" :: "real_t" :: dst.text :: "=" :: "*" :: (a.tokens ++ [";"])
  | .loadRow dst a =>
    "const" :: "real_vec_t" :: dst.text :: "=" :: plan.intrinsic "loadu" :: "("
      :: (a.tokens ++ [")", ";"])
  | .loadSplat dst a =>
    "const" :: "real_vec_t" :: dst.text :: "=" :: plan.intrinsic "set1" :: "(" :: "*"
      :: (a.tokens ++ [")", ";"])
  | .declareLanes dst => ["real_t", lanesName dst, "[", "VLEN", "]", ";"]
  | .fillLanes dst a =>
    loopTokens ++ lanesName dst :: "[" :: "lane" :: "]" :: "=" :: "*" :: (a.tokens ++ [";"])
  | .loadLanes dst =>
    ["const", "real_vec_t", dst.text, "=", plan.intrinsic "loadu", "(", lanesName dst, ")", ";"]
  | .storeOne a src => "*" :: (a.tokens ++ ["=", src.text, ";"])
  | .storeRow a src => plan.intrinsic "storeu" :: "(" :: (a.tokens ++ [",", src.text, ")", ";"])
  | .declareOut => ["real_t", "out_lanes", "[", "VLEN", "]", ";"]
  | .fillOut src => [plan.intrinsic "storeu", "(", "out_lanes", ",", src.text, ")", ";"]
  | .storeLast a => "*" :: (a.tokens ++ ["=", "out_lanes", "[", "VLEN", "-", "1", "]", ";"])
  | .storeLanes a => loopTokens ++ "*" :: (a.tokens ++ ["=", "out_lanes", "[", "lane", "]", ";"])

theorem Plan.lex_tempType (plan : Plan) : lex plan.tempType = [plan.tempType] := by
  unfold Plan.tempType
  split_ifs <;> rfl

/-- A constant is written as a literal, within an intrinsic where the target has vectors. -/
theorem Plan.lex_constantText {plan : Plan} (h : plan.target ∈ Target.all) (v : Double) :
    lex (plan.constantText v) = plan.constantTokens v := by
  have hset : lex (plan.intrinsic "set1") = [plan.intrinsic "set1"] := plan.lex_intrinsic h rfl
  unfold Plan.constantText Plan.constantTokens
  dsimp only
  split_ifs
  · exact (lex_around (lex_then hset rfl rfl) rfl).trans rfl
  · rfl

/-- An operation is written with an operator or as an intrinsic, according to the target. -/
theorem Plan.lex_computeText {plan : Plan} (h : plan.target ∈ Target.all) (op : Operator)
    (lhs rhs : Temp) : lex (plan.computeText op lhs rhs) = plan.computeTokens op lhs rhs := by
  unfold Plan.computeText Plan.computeTokens
  split_ifs
  · have hname : lex (plan.intrinsic op.mnemonic) = [plan.intrinsic op.mnemonic] :=
      plan.lex_intrinsic h (by cases op <;> rfl)
    exact (lex_around (lex_around (lex_then hname rfl rfl) lhs.lex_text) rhs.lex_text).trans rfl
  · have hop : lex op.symbol = [op.symbol] := by cases op <;> rfl
    exact (lex_after (lex_around (lex_then lhs.lex_text rfl rfl) hop) (endsToken_append _ rfl)
      rhs.lex_text).trans rfl

/-- **Statements are written as their tokens**, if their addresses are. -/
theorem Plan.lex_stmtText {plan : Plan} (h : plan.target ∈ Target.all) (stmt : Stmt)
    (haddress : ∀ a, stmt.address? = some a → lex a.text = a.tokens) :
    lex (plan.stmtText stmt) = plan.tokens stmt := by
  have hload : lex (plan.intrinsic "loadu") = [plan.intrinsic "loadu"] := plan.lex_intrinsic h rfl
  have hset : lex (plan.intrinsic "set1") = [plan.intrinsic "set1"] := plan.lex_intrinsic h rfl
  have hstore : lex (plan.intrinsic "storeu") = [plan.intrinsic "storeu"] :=
    plan.lex_intrinsic h rfl
  have hdst : ∀ dst : Temp, lex ("const " ++ plan.tempType ++ " " ++ dst.text ++ " = ")
      = ["const", plan.tempType, dst.text, "="] := fun dst =>
    (lex_around (lex_around rfl plan.lex_tempType) dst.lex_text).trans rfl
  have hregister : ∀ dst : Temp, lex ("const real_vec_t " ++ dst.text ++ " = ")
      = ["const", "real_vec_t", dst.text, "="] := fun dst => (lex_around rfl dst.lex_text).trans rfl
  -- each text is taken apart at its variable pieces, and the fixed pieces around them are computed
  cases stmt with
  | note text => exact lex_after rfl rfl rfl
  | constant dst v => exact (lex_around (hdst dst) (plan.lex_constantText h v)).trans rfl
  | compute dst op lhs rhs =>
    exact (lex_around (hdst dst) (plan.lex_computeText h op lhs rhs)).trans rfl
  | loadOne dst a => exact (lex_around (lex_around rfl dst.lex_text) (haddress a rfl)).trans rfl
  | loadRow dst a =>
    exact (lex_around (lex_around (hregister dst) hload) (haddress a rfl)).trans rfl
  | loadSplat dst a =>
    exact (lex_around (lex_around (hregister dst) hset) (haddress a rfl)).trans rfl
  | declareLanes dst => exact (lex_around rfl (lex_lanesName dst)).trans rfl
  | fillLanes dst a =>
    exact (lex_around (lex_around lex_laneLoop (lex_lanesName dst)) (haddress a rfl)).trans rfl
  | loadLanes dst =>
    exact (lex_around (lex_around (hregister dst) hload) (lex_lanesName dst)).trans rfl
  | storeOne a src =>
    refine (lex_around (lex_around rfl (haddress a rfl)) src.lex_text).trans ?_
    simp only [List.append_assoc]
    rfl
  | storeRow a src =>
    refine (lex_around (lex_around (lex_then hstore rfl rfl) (haddress a rfl))
      src.lex_text).trans ?_
    simp only [List.append_assoc]
    rfl
  | declareOut =>
    show lex "real_t out_lanes[VLEN];" = ["real_t", "out_lanes", "[", "VLEN", "]", ";"]
    decide +kernel
  | fillOut src => exact (lex_around (lex_then hstore rfl rfl) src.lex_text).trans rfl
  | storeLast a => exact (lex_around rfl (haddress a rfl)).trans rfl
  | storeLanes a => exact (lex_around (lex_after lex_laneLoop rfl rfl) (haddress a rfl)).trans rfl

/-! ## Names that statements declare -/

/-- The name that a statement declares in the function. -/
def Stmt.local? : Stmt → Option String
  | constant dst _ | compute dst _ _ _ | loadOne dst _ | loadRow dst _ | loadSplat dst _
  | loadLanes dst => some dst.text
  | declareLanes dst => some (lanesName dst)
  | declareOut => some "out_lanes"
  | _ => none

/-- The statement is a loop over the lanes. -/
def Stmt.isLoop : Stmt → Bool
  | fillLanes _ _ | storeLanes _ => true
  | _ => false

/-- **A definition** declares the temporary after its type. -/
theorem declared_definition {type : String} (htype : type ∈ typeEnds) (dst : Temp)
    (ts : List String) :
    declared ("const" :: type :: dst.text :: "=" :: ts) = dst.text :: declared ts := by
  rw [declared_cons_of_not_mem (by decide), declared_name htype dst.isIdentifier_text,
    declared_before (by decide)]

theorem Plan.tempType_mem (plan : Plan) : plan.tempType ∈ typeEnds := by
  unfold Plan.tempType
  split_ifs <;> decide

theorem Plan.declared_constantTokens (plan : Plan) (v : Double) :
    declared (plan.constantTokens v ++ [";"]) = [] := by
  have hliteral : ∀ symbol, isIdentifier symbol = false → ∀ ts,
      declared (lex (plan.width.literal v) ++ symbol :: ts) = declared (symbol :: ts) := by
    intro symbol hsymbol ts
    exact declared_lex_append (plan.width.isTight_literal v) (noName_cons hsymbol ts)
  unfold Plan.constantTokens
  dsimp only
  split_ifs
  · rw [List.cons_append, List.cons_append, declared_before (by decide), List.append_assoc]
    exact hliteral ")" rfl [";"]
  · exact hliteral ";" rfl []

theorem Plan.declared_computeTokens (plan : Plan) (op : Operator) (lhs rhs : Temp) :
    declared (plan.computeTokens op lhs rhs ++ [";"]) = [] := by
  unfold Plan.computeTokens
  split_ifs
  · show declared (_ :: "(" :: lhs.text :: "," :: rhs.text :: ")" :: [";"]) = []
    rw [declared_before (by decide), declared_before (by decide), declared_before (by decide)]
    rfl
  · have hop : isIdentifier op.symbol = false ∧ op.symbol ∉ typeEnds := by cases op <;> decide
    show declared (lhs.text :: op.symbol :: rhs.text :: [";"]) = []
    rw [declared_before hop, declared_before (by decide)]
    rfl

theorem declared_loop (ts : List String) : declared (loopTokens ++ ts) = "lane" :: declared ts := by
  have hopen : declared (loopTokens ++ ts) = "lane" :: declared (")" :: ts) := rfl
  rw [hopen, declared_cons_of_not_mem (by decide)]

/-- **The names that the tokens of a statement declare.** -/
theorem Plan.declared_tokens (plan : Plan) (stmt : Stmt) (hnote : ∀ text, stmt ≠ .note text) :
    declared (plan.tokens stmt) = if stmt.isLoop then ["lane"] else stmt.local?.toList := by
  cases stmt with
  | note text => exact absurd rfl (hnote text)
  | constant dst v =>
    exact (declared_definition plan.tempType_mem dst _).trans
      (congrArg (dst.text :: ·) (plan.declared_constantTokens v))
  | compute dst op lhs rhs =>
    exact (declared_definition plan.tempType_mem dst _).trans
      (congrArg (dst.text :: ·) (plan.declared_computeTokens op lhs rhs))
  | loadOne dst a =>
    rw [Plan.tokens, declared_definition (by decide), declared_cons_of_not_mem (by decide),
      Address.tokens, declared_address]
    rfl
  | loadRow dst a =>
    rw [Plan.tokens, declared_definition (by decide), declared_before (by decide), Address.tokens,
      declared_address]
    rfl
  | loadSplat dst a =>
    rw [Plan.tokens, declared_definition (by decide), declared_before (by decide),
      declared_cons_of_not_mem (by decide), Address.tokens, declared_address]
    rfl
  | declareLanes dst =>
    rw [Plan.tokens, declared_name (by decide) (isIdentifier_lanesName dst),
      declared_before (by decide)]
    rfl
  | fillLanes dst a =>
    rw [Plan.tokens, declared_loop, declared_before (by decide), declared_before (by decide),
      declared_before (by decide), Address.tokens, declared_address]
    rfl
  | loadLanes dst =>
    rw [Plan.tokens, declared_definition (by decide), declared_before (by decide),
      declared_before (by decide)]
    rfl
  | storeOne a src =>
    rw [Plan.tokens, declared_cons_of_not_mem (by decide), Address.tokens, declared_address,
      declared_cons_of_not_mem (by decide), declared_before (by decide)]
    rfl
  | storeRow a src =>
    rw [Plan.tokens, declared_before (by decide), Address.tokens, declared_address,
      declared_cons_of_not_mem (by decide), declared_before (by decide)]
    rfl
  | declareOut => rfl
  | fillOut src =>
    rw [Plan.tokens, declared_before (by decide), declared_before (by decide),
      declared_before (by decide)]
    rfl
  | storeLast a =>
    rw [Plan.tokens, declared_cons_of_not_mem (by decide), Address.tokens, declared_address]
    rfl
  | storeLanes a =>
    rw [Plan.tokens, declared_loop, declared_cons_of_not_mem (by decide), Address.tokens,
      declared_address]
    rfl

/-- A statement starts with `for` if it is a loop, and with a slash if it is a comment. -/
theorem Plan.head?_tokens (plan : Plan) (stmt : Stmt) :
    ((plan.tokens stmt).head? = some "for" ↔ stmt.isLoop = true)
      ∧ ((plan.tokens stmt).head? = some "/" ↔ ∃ text, stmt = .note text) := by
  have hfor : plan.intrinsic "storeu" ≠ "for" := plan.intrinsic_ne _ (by decide)
  have hslash : plan.intrinsic "storeu" ≠ "/" := plan.intrinsic_ne _ (by decide)
  cases stmt <;> simp [Plan.tokens, loopTokens, Stmt.isLoop, hfor, hslash]

/-- **The names that the line of a statement declares.** -/
theorem Plan.names_line {plan : Plan} (h : plan.target ∈ Target.all) (stmt : Stmt)
    (haddress : ∀ a, stmt.address? = some a → lex a.text = a.tokens) :
    declaredHere (lex ("        " ++ plan.stmtText stmt)) = stmt.local?.toList
      ∧ declaredInLoop (lex ("        " ++ plan.stmtText stmt))
        = if stmt.isLoop then ["lane"] else [] := by
  have hline : lex ("        " ++ plan.stmtText stmt) = plan.tokens stmt :=
    lex_after rfl rfl (plan.lex_stmtText h stmt haddress)
  obtain ⟨hfor, hslash⟩ := plan.head?_tokens stmt
  rw [hline, declaredHere, declaredInLoop]
  by_cases hnote : ∃ text, stmt = .note text
  · obtain ⟨text, rfl⟩ := hnote
    exact ⟨rfl, rfl⟩
  · rw [plan.declared_tokens stmt (not_exists.mp hnote)]
    by_cases hloop : stmt.isLoop = true
    · have hlocal : stmt.local? = none := by cases stmt <;> first | rfl | cases hloop
      simp [hfor.mpr hloop, hloop, hlocal]
    · simp [hfor, hslash, hnote, hloop]

end Calc

end Stencil
