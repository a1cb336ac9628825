import Mathlib
import Stencil.Proofs.CodeNames

/-!
# Names of dimensions in generated functions

A dimension becomes a parameter of the generated functions under its own name, next to the names
that a function declares for itself and those that it uses from outside.

Of the names that a function declares itself no two are the same (`Calc.Plan.nodup_localNames`). But
nothing keeps a dimension from having one of them: names are apart exactly where no dimension does
(`Draft.names_apart_iff`). Else the function does not compile, or a loop hides the dimension and an
address denotes another cell (`Draft.lane_captured`).

The names of a function are found in its text. What each line declares was read off its tokens; here
the lines are put together, statement by statement and instruction by instruction, into the list of
all names of a function (`Plan.names_function`). On the other side stands the list that the plan
gives without any text (`Plan.localNames`): the name of each temporary, that of its lanes if they
are filled one by one, and that of the lanes that are stored. That this list has no repetition
follows from the numbering of the temporaries.

What a function has for itself is then its own names, the parameter `grids`, the names it uses from
outside, and `lane` if it has a loop (`Plan.reservedNames`).
-/

namespace Stencil

open Code

namespace Calc

/-! ## Names that functions declare -/

/-- The names for an instruction: its temporary, and the lanes of a point that is read lane by lane.
    -/
def Plan.instrNames (plan : Plan) (i : Instr) : List String :=
  match i.operation with
  | .load p => if plan.isStrided p then [lanesName i.dst, i.dst.text] else [i.dst.text]
  | _ => [i.dst.text]

/-- The names for what is stored: the lanes, unless they are stored as a row. -/
def Plan.storeNames (plan : Plan) (p : Point) : List String :=
  if plan.target.isVector && plan.access p != .contiguous then ["out_lanes"] else []

/-- The names that the function of a kernel declares, apart from its parameters and its loops. -/
def Plan.localNames (plan : Plan) (k : Kernel) : List String :=
  k.instrs.flatMap plan.instrNames ++ plan.storeNames k.store

/-- The function of a kernel has a loop over the lanes. -/
def Plan.hasLoop (plan : Plan) (k : Kernel) : Bool :=
  (loadedPoints k.instrs).any plan.isStrided || plan.isStrided k.store

/-- A load declares its temporary, and before it the array of its lanes if the elements do not lie
    next to each other. -/
theorem Plan.local?_load (plan : Plan) (dst : Temp) (p : Point) :
    (plan.load dst p).filterMap Stmt.local?
      = if plan.isStrided p then [lanesName dst, dst.text] else [dst.text] := by
  unfold Plan.load Plan.isStrided
  cases plan.target.isVector with
  | false => rfl
  | true => cases plan.access p <;> rfl

/-- A load has a loop exactly if the elements do not lie next to each other. -/
theorem Plan.isLoop_load (plan : Plan) (dst : Temp) (p : Point) :
    (plan.load dst p).any Stmt.isLoop = plan.isStrided p := by
  unfold Plan.load Plan.isStrided
  cases plan.target.isVector with
  | false => rfl
  | true => cases plan.access p <;> rfl

theorem Plan.local?_store (plan : Plan) (p : Point) (src : Temp) :
    (plan.store p src).filterMap Stmt.local? = plan.storeNames p := by
  unfold Plan.store Plan.storeNames
  cases plan.target.isVector with
  | false => rfl
  | true => cases plan.access p <;> rfl

/-- A store has a loop exactly if the elements do not lie next to each other. -/
theorem Plan.isLoop_store (plan : Plan) (p : Point) (src : Temp) :
    (plan.store p src).any Stmt.isLoop = plan.isStrided p := by
  unfold Plan.store Plan.isStrided
  cases plan.target.isVector with
  | false => rfl
  | true => cases plan.access p <;> rfl

theorem Plan.local?_instr (plan : Plan) (i : Instr) :
    (plan.instr i).filterMap Stmt.local? = plan.instrNames i := by
  unfold Plan.instr Plan.instrNames
  cases i.operation with
  | load p => exact plan.local?_load i.dst p
  | const v => rfl
  | binary op lhs rhs => rfl

/-- The names that the statements of a function declare are those that the plan lists for its
    kernel. -/
theorem Plan.local?_body (plan : Plan) (k : Kernel) :
    (plan.body k).filterMap Stmt.local? = plan.localNames k := by
  rw [Plan.body, List.filterMap_append, List.filterMap_flatMap, Plan.localNames]
  congr 1
  · exact congrArg k.instrs.flatMap (funext plan.local?_instr)
  · exact plan.local?_store k.store k.result

theorem Plan.isLoop_instr (plan : Plan) (i : Instr) :
    (plan.instr i).any Stmt.isLoop = i.operation.point?.any plan.isStrided := by
  unfold Plan.instr
  cases i.operation with
  | load p => exact plan.isLoop_load i.dst p
  | const v => rfl
  | binary op lhs rhs => rfl

/-- A function has a loop exactly if one of its points is read or written lane by lane. -/
theorem Plan.isLoop_body (plan : Plan) (k : Kernel) :
    (plan.body k).any Stmt.isLoop = plan.hasLoop k := by
  rw [Plan.body, List.any_append, List.any_flatMap, Plan.hasLoop, loadedPoints, List.any_filterMap]
  simp only [plan.isLoop_instr]
  congr 1
  exact plan.isLoop_store k.store k.result

/-- The names that the lines of a body declare. -/
theorem Plan.names_body {plan : Plan} (h : plan.target ∈ Target.all) {k : Kernel}
    (haddress : ∀ stmt ∈ plan.body k, ∀ a, stmt.address? = some a → lex a.text = a.tokens) :
    blockNames (plan.bodyLines k) = plan.localNames k
      ∧ ∀ name, name ∈ loopNames (plan.bodyLines k) ↔ name = "lane" ∧ plan.hasLoop k = true := by
  rw [blockNames, loopNames, Plan.bodyLines, List.flatMap_map, List.flatMap_map]
  constructor
  · rw [← plan.local?_body, List.filterMap_eq_flatMap_toList]
    exact List.flatMap_congr fun stmt hstmt => (plan.names_line h stmt (haddress stmt hstmt)).1
  · intro name
    rw [← plan.isLoop_body, List.mem_flatMap, List.any_eq_true]
    constructor
    · rintro ⟨stmt, hstmt, hname⟩
      rw [(plan.names_line h stmt (haddress stmt hstmt)).2] at hname
      split_ifs at hname with hloop
      · exact ⟨List.mem_singleton.mp hname, stmt, hstmt, hloop⟩
      · exact absurd hname List.not_mem_nil
    · rintro ⟨rfl, stmt, hstmt, hloop⟩
      refine ⟨stmt, hstmt, ?_⟩
      rw [(plan.names_line h stmt (haddress stmt hstmt)).2, if_pos hloop]
      exact List.mem_singleton.mpr rfl

theorem lex_struct (index : Nat) :
    lex ("struct Equation_" ++ toString index ++ " \x7b")
      = ["struct", "Equation_" ++ toString index, "\x7b"] := by
  have hname : lex ("Equation_" ++ toString index) = ["Equation_" ++ toString index] :=
    lex_word (isWord_of_isIdentifier (isIdentifier_append rfl (isWord_toString index).chars))
  have hsplit : "struct Equation_" ++ toString index
      = "struct " ++ ("Equation_" ++ toString index) := by
    rw [← String.append_assoc]
    rfl
  rw [hsplit]
  exact (lex_around rfl hname).trans rfl

/-- The lines of a kernel's struct before the body of its function. -/
def Plan.frontLines (plan : Plan) (k : Kernel) : List String :=
  ["// " ++ k.equation.text, "struct Equation_" ++ toString k.index ++ " \x7b",
    "    template<typename Grids>", signature plan]

/-- Up to its body, a function declares its parameters. -/
theorem Plan.names_frontLines {plan : Plan} (hparams : ∀ p ∈ plan.params, isIdentifier p = true)
    (k : Kernel) :
    blockNames (plan.frontLines k) = "grids" :: plan.params
      ∧ loopNames (plan.frontLines k) = [] := by
  have hcomment : lex ("// " ++ k.equation.text) = "/" :: "/" :: lex k.equation.text :=
    lex_after rfl rfl rfl
  have hstruct : declared ["struct", "Equation_" ++ toString k.index, "\x7b"] = [] := by
    rw [declared_cons_of_not_mem (by decide), declared_symbol rfl]
    rfl
  have htemplate : lex "    template<typename Grids>"
      = ["template", "<", "typename", "Grids", ">"] := by
    decide +kernel
  have hsignature : declaredHere (lex (signature plan)) = "grids" :: plan.params
      ∧ declaredInLoop (lex (signature plan)) = [] := by
    have hhead : (lex (signature plan)).head? = some "static" := by
      rw [lex_signature plan hparams]
      rfl
    rw [declaredHere, declaredInLoop, hhead, declared_signature plan hparams]
    exact ⟨rfl, rfl⟩
  simp only [frontLines, blockNames, loopNames, List.flatMap_cons, List.flatMap_nil, hcomment,
    lex_struct, htemplate, hsignature]
  refine ⟨?_, rfl⟩
  show [] ++ (declared ["struct", "Equation_" ++ toString k.index, "\x7b"] ++ _) = _
  rw [hstruct]
  exact congrArg ("grids" :: ·) (List.append_nil _)

/-- **What a function declares**: `grids`, the dimensions and its own names, and `lane` in every
    loop. -/
theorem Plan.names_function {plan : Plan} (h : plan.target ∈ Target.all)
    (hparams : ∀ p ∈ plan.params, isIdentifier p = true) {k : Kernel}
    (haddress : ∀ stmt ∈ plan.body k, ∀ a, stmt.address? = some a → lex a.text = a.tokens) :
    blockNames (Header.equation plan k) = "grids" :: (plan.params ++ plan.localNames k)
      ∧ ∀ name, name ∈ loopNames (Header.equation plan k)
          ↔ name = "lane" ∧ plan.hasLoop k = true := by
  obtain ⟨hfront, hnoLoop⟩ := plan.names_frontLines hparams k
  obtain ⟨hbody, hloops⟩ := plan.names_body h haddress
  have hback : blockNames ["    \x7d", "\x7d;", ""] = []
      ∧ loopNames ["    \x7d", "\x7d;", ""] = [] := by
    decide +kernel
  have hlines : Header.equation plan k
      = plan.frontLines k ++ plan.bodyLines k ++ ["    \x7d", "\x7d;", ""] := rfl
  rw [hlines, blockNames_append, blockNames_append, loopNames_append, loopNames_append, hfront,
    hnoLoop, hbody, hback.1, hback.2, List.append_nil, List.append_nil, List.nil_append]
  exact ⟨rfl, hloops⟩

/-! ## The names of a function are distinct -/

theorem lanesName_injective : Function.Injective lanesName := by
  intro t u h
  have hchars : t.text.toList = u.text.toList := by
    simpa [lanesName] using congrArg String.toList h
  exact Temp.text_injective (String.toList_inj.mp hchars)

/-- The lanes of a temporary have a name that no temporary has. -/
theorem lanesName_ne_text (t u : Temp) : lanesName t ≠ u.text := by
  intro h
  have hmem : '_' ∈ u.text.toList := by
    rw [← h]
    simp [lanesName]
  have hdigit : '_' ∈ Nat.toDigits 10 u.index := by
    rw [Temp.text, String.toList_append, toList_toString, List.mem_append] at hmem
    exact hmem.resolve_left (by decide)
  exact absurd (isDigit_of_mem_toDigits hdigit) (by decide)

/-- The names of temporaries and of their lanes start with `temp`. -/
theorem take_text (t : Temp) :
    t.text.toList.take 4 = ['t', 'e', 'm', 'p']
      ∧ (lanesName t).toList.take 4 = ['t', 'e', 'm', 'p'] := by
  constructor
  · simp [Temp.text]
  · simp [lanesName, Temp.text]

theorem Plan.instrNames_cases (plan : Plan) (i : Instr) :
    plan.instrNames i = [lanesName i.dst, i.dst.text] ∨ plan.instrNames i = [i.dst.text] := by
  unfold Plan.instrNames
  cases i.operation with
  | load p =>
    by_cases hp : plan.isStrided p = true
    · exact Or.inl (if_pos hp)
    · exact Or.inr (if_neg hp)
  | const v => exact Or.inr rfl
  | binary op lhs rhs => exact Or.inr rfl

theorem Plan.mem_instrNames {plan : Plan} {i : Instr} {name : String}
    (h : name ∈ plan.instrNames i) : name = lanesName i.dst ∨ name = i.dst.text := by
  rcases plan.instrNames_cases i with hnames | hnames <;> rw [hnames] at h
  · simpa using h
  · exact Or.inr (List.mem_singleton.mp h)

theorem Plan.nodup_instrNames (plan : Plan) (i : Instr) : (plan.instrNames i).Nodup := by
  rcases plan.instrNames_cases i with hnames | hnames <;> rw [hnames]
  · simpa using lanesName_ne_text i.dst i.dst
  · exact List.nodup_singleton _

/-- Instructions for two temporaries have no name in common. -/
theorem Plan.disjoint_instrNames (plan : Plan) {i j : Instr} (h : i.dst ≠ j.dst) :
    List.Disjoint (plan.instrNames i) (plan.instrNames j) := by
  intro name hi hj
  rcases mem_instrNames hi with rfl | rfl <;> rcases mem_instrNames hj with he | he
  · exact h (lanesName_injective he)
  · exact lanesName_ne_text _ _ he
  · exact lanesName_ne_text _ _ he.symm
  · exact h (Temp.text_injective he)

theorem Plan.mem_storeNames {plan : Plan} {p : Point} {name : String}
    (h : name ∈ plan.storeNames p) : name = "out_lanes" := by
  unfold Plan.storeNames at h
  split_ifs at h
  · exact List.mem_singleton.mp h
  · exact absurd h List.not_mem_nil

theorem Plan.mem_localNames {plan : Plan} {k : Kernel} {name : String}
    (h : name ∈ plan.localNames k) :
    (∃ i ∈ k.instrs, name ∈ plan.instrNames i) ∨ name = "out_lanes" := by
  rw [Plan.localNames, List.mem_append, List.mem_flatMap] at h
  exact h.imp_right mem_storeNames

/-- The names of instructions all begin alike, so that any other beginning sets a name apart from
    them. -/
theorem Plan.instrNames_ne {plan : Plan} {i : Instr} {name : String} (h : name ∈ plan.instrNames i)
    {other : String} (hother : other.toList.take 4 ≠ ['t', 'e', 'm', 'p']) : name ≠ other := by
  rintro rfl
  apply hother
  rcases mem_instrNames h with rfl | rfl
  · exact (take_text i.dst).2
  · exact (take_text i.dst).1

/-- **A function's own names are distinct**, as its temporaries are numbered. -/
theorem Plan.nodup_localNames (plan : Plan) {k : Kernel} (h : (k.instrs.map Instr.dst).Nodup) :
    (plan.localNames k).Nodup := by
  have hinstrs : (k.instrs.flatMap plan.instrNames).Nodup := by
    rw [List.nodup_flatMap]
    refine ⟨fun i _ => plan.nodup_instrNames i, ?_⟩
    exact (List.pairwise_map.mp h).imp fun hne => plan.disjoint_instrNames hne
  refine List.Nodup.append hinstrs ?_ ?_
  · unfold Plan.storeNames
    split_ifs <;> simp
  · intro name hname hstore
    obtain ⟨i, _, hi⟩ := List.mem_flatMap.mp hname
    exact instrNames_ne hi (by decide) (mem_storeNames hstore)

/-- Nor does it declare `grids`, `lane` or a name that it uses from outside. -/
theorem Plan.localNames_apart {plan : Plan} {k : Kernel} {name : String}
    (h : name ∈ plan.localNames k) : name ∉ "grids" :: "lane" :: outerNames := by
  have hothers : ∀ other ∈ "grids" :: "lane" :: outerNames,
      other.toList.take 4 ≠ ['t', 'e', 'm', 'p'] := by decide
  rcases mem_localNames h with ⟨i, _, hi⟩ | rfl
  · exact fun hmem => instrNames_ne hi (hothers name hmem) rfl
  · decide

/-! ## Dimensions with the names of a function -/

/-- The names that a function has for itself: those that it declares and those that it uses from
    outside. -/
def Plan.reservedNames (plan : Plan) (k : Kernel) : List String :=
  "grids" :: (outerNames ++ plan.localNames k ++ if plan.hasLoop k then ["lane"] else [])

theorem Plan.mem_reservedNames {plan : Plan} {k : Kernel} {name : String} :
    name ∈ plan.reservedNames k ↔ name = "grids" ∨ name ∈ outerNames ∨ name ∈ plan.localNames k
      ∨ name = "lane" ∧ plan.hasLoop k = true := by
  unfold Plan.reservedNames
  by_cases hloop : plan.hasLoop k = true <;> simp [hloop]

variable {plan : Plan} {k : Kernel} {lines : List String}

/-- **Names are apart exactly if no parameter has a name that the function has for itself.** -/
theorem Plan.namesApart_iff (hparams : plan.params.Nodup) (hlocal : (plan.localNames k).Nodup)
    (hblock : blockNames lines = "grids" :: (plan.params ++ plan.localNames k))
    (hloop : ∀ name, name ∈ loopNames lines ↔ name = "lane" ∧ plan.hasLoop k = true) :
    NamesApart lines ↔ ∀ name ∈ plan.params, name ∉ plan.reservedNames k := by
  have hfresh : ∀ name ∈ plan.localNames k, name ∉ "grids" :: "lane" :: outerNames :=
    fun name hname => localNames_apart hname
  constructor
  · rintro ⟨hdistinct, hloops, houter⟩ name hname hreserved
    rw [hblock, List.nodup_cons, List.nodup_append] at hdistinct
    -- each way to be reserved breaks one of the three conditions
    rcases mem_reservedNames.mp hreserved with rfl | hout | hown | ⟨rfl, hhas⟩
    · exact hdistinct.1 (List.mem_append_left _ hname)
    · refine houter name (List.mem_append_left _ ?_) hout
      rw [hblock]
      exact List.mem_cons_of_mem _ (List.mem_append_left _ hname)
    · exact hdistinct.2.2.2 name hname name hown rfl
    · apply hloops "lane" ((hloop _).mpr ⟨rfl, hhas⟩)
      rw [hblock]
      exact List.mem_cons_of_mem _ (List.mem_append_left _ hname)
  · intro h
    have hne : ∀ name ∈ plan.params, name ≠ "grids" ∧ name ∉ outerNames
        ∧ name ∉ plan.localNames k ∧ (plan.hasLoop k = true → name ≠ "lane") := by
      intro name hname
      have hnot := h name hname
      simp only [mem_reservedNames, not_or, not_and'] at hnot
      exact hnot
    refine ⟨?_, ?_, ?_⟩
    · rw [hblock, List.nodup_cons, List.mem_append, not_or]
      refine ⟨⟨fun hg => (hne _ hg).1 rfl, fun hg => hfresh _ hg List.mem_cons_self⟩, ?_⟩
      exact hparams.append hlocal fun name hp hl => (hne name hp).2.2.1 hl
    · intro name hname hmem
      obtain ⟨rfl, hhas⟩ := (hloop name).mp hname
      rw [hblock, List.mem_cons, List.mem_append] at hmem
      rcases hmem with hg | hp | hl
      · exact absurd hg (by decide)
      · exact (hne _ hp).2.2.2 hhas rfl
      · exact hfresh _ hl (by decide)
    · intro name hname
      rw [hblock, List.mem_append, List.mem_cons, List.mem_append, hloop] at hname
      rcases hname with (rfl | hp | hl) | ⟨rfl, _⟩
      · decide
      · exact (hne name hp).2.1
      · exact fun hout => hfresh name hl (List.mem_cons_of_mem _ (List.mem_cons_of_mem _ hout))
      · decide

/-- **A parameter with no such name is declared once.** -/
theorem Plan.count_declared (hparams : plan.params.Nodup)
    (hblock : blockNames lines = "grids" :: (plan.params ++ plan.localNames k))
    (hloop : ∀ name, name ∈ loopNames lines ↔ name = "lane" ∧ plan.hasLoop k = true) {name : String}
    (hname : name ∈ plan.params) (hfree : name ∉ plan.reservedNames k) :
    (blockNames lines ++ loopNames lines).count name = 1 := by
  simp only [mem_reservedNames, not_or] at hfree
  obtain ⟨hgrids, _, hlocal, hlane⟩ := hfree
  have hnoLoop : name ∉ loopNames lines := by rwa [hloop]
  rw [hblock, List.count_append, List.count_cons_of_ne (Ne.symm hgrids), List.count_append,
    List.count_eq_one_of_mem hparams hname, List.count_eq_zero_of_not_mem hlocal,
    List.count_eq_zero_of_not_mem hnoLoop]

/-- What the function of an equation declares, in its block and in its loops. -/
theorem Plan.names_kernel (plan : Plan) (h : plan.target ∈ Target.all)
    (hparams : ∀ p ∈ plan.params, isIdentifier p = true) (e : Equation) (index : Nat)
    (share : Bool) :
    let k := e.kernel index share
    blockNames (Header.equation plan k) = "grids" :: (plan.params ++ plan.localNames k)
      ∧ ∀ name, name ∈ loopNames (Header.equation plan k)
          ↔ name = "lane" ∧ plan.hasLoop k = true := by
  apply plan.names_function h hparams
  intro stmt hstmt a ha
  have hmem : a ∈ (e.rhs.points.eraseDups ++ [e.lhs]).map plan.addressOf := by
    rw [← plan.address?_kernel e index share]
    exact List.mem_filterMap.mpr ⟨stmt, hstmt, ha⟩
  obtain ⟨p, _, rfl⟩ := List.mem_map.mp hmem
  exact plan.lex_address p _

end Calc

/-- **When names of dimensions get in the way.** In every solution that a session leaves, for every
    target and every kernel of an equation, a function declares `grids`, the dimensions and names of
    its own, and `lane` in its loops over lanes. Its own names are distinct, and none is one that it
    uses from outside. Nothing is said of the dimensions: names are apart exactly if no dimension
    has a name that the function has for itself. A dimension that has none is declared once, so that
    its name means its parameter wherever it stands. -/
theorem Draft.names_apart_iff (name : String) (log : Option Sink) (calls : List Call) {t : Target}
    (ht : t ∈ Target.all) {e : Equation} {index : Nat} {share : Bool} {k : Kernel}
    (hk : e.lower index share = .ok k) :
    let s := ((Draft.new name log).after calls).solution
    let plan := Calc.Plan.of s t
    let lines := Header.equation plan k
    let own := "grids" :: "lane" :: plan.localNames k
    blockNames lines
        = "grids" :: ((s.stepDim?.toList ++ s.domainDims).map Dim.name ++ plan.localNames k)
      ∧ (∀ n, n ∈ loopNames lines ↔ n = "lane" ∧ plan.hasLoop k = true)
      ∧ (own.Nodup ∧ ∀ n ∈ own, n ∉ outerNames)
      ∧ (NamesApart lines ↔ ∀ d ∈ s.dims, d.name ∉ plan.reservedNames k)
      ∧ ∀ d ∈ s.dims, d.name ∉ plan.reservedNames k →
          (blockNames lines ++ loopNames lines).count d.name = 1 := by
  intro s plan lines own
  have hvalid : s.Valid := Draft.valid_after name log calls
  have hparams : plan.params.Nodup := hvalid.nodup_writtenDims
  have hmem : ∀ d, d ∈ s.dims → d.name ∈ plan.params := fun d hd =>
    List.mem_map_of_mem (hvalid.mem_writtenDims.mpr hd)
  obtain rfl := Equation.eq_kernel_of_lower hk
  obtain ⟨hblock, hloop⟩ := plan.names_kernel ht
    (hvalid.isIdentifier_params t) e index share
  have hlocal : (plan.localNames (e.kernel index share)).Nodup :=
    plan.nodup_localNames (Lowering.numbered_start.lower share e.rhs).nodup
  have hapart : ∀ n ∈ plan.localNames (e.kernel index share), n ∉ "grids" :: "lane" :: outerNames :=
    fun n hn => Calc.Plan.localNames_apart hn
  refine ⟨hblock, hloop, ⟨?_, ?_⟩, ?_, ?_⟩
  · have hgrids : "grids" ∉ plan.localNames (e.kernel index share) := fun h =>
      hapart _ h List.mem_cons_self
    have hlane : "lane" ∉ plan.localNames (e.kernel index share) := fun h => hapart _ h (by decide)
    exact List.nodup_cons.mpr ⟨List.not_mem_cons_of_ne_of_not_mem (by decide) hgrids,
      List.nodup_cons.mpr ⟨hlane, hlocal⟩⟩
  · intro n hn
    rcases List.mem_cons.mp hn with rfl | hn
    · decide
    · rcases List.mem_cons.mp hn with rfl | hn
      · decide
      · exact fun h => hapart n hn (List.mem_cons_of_mem _ (List.mem_cons_of_mem _ h))
  · rw [Calc.Plan.namesApart_iff hparams hlocal hblock hloop]
    constructor
    · intro h d hd
      exact h d.name (hmem d hd)
    · intro h n hn
      obtain ⟨d, hd, rfl⟩ := List.mem_map.mp hn
      exact h d (hvalid.mem_writtenDims.mp hd)
  · intro d hd hfree
    exact Calc.Plan.count_declared hparams hblock hloop (hmem d hd) hfree

theorem Draft.names_apart_iff_farWind :
    let s := ((Draft.new "coast" none).after Call.farWind).solution
    let plan := Calc.Plan.of s .avx512
    ∃ k, Equation.farWind.lower 0 true = .ok k
      ∧ plan.localNames k = ["temp0_lanes", "temp0"] ∧ plan.hasLoop k = true
      ∧ NamesApart (Header.equation plan k) := by
  intro s plan
  have hlower := Equation.lower_eq_kernel (e := .farWind) (by decide) 0 true
  obtain ⟨_, _, _, hiff, _⟩ :=
    Draft.names_apart_iff "coast" none Call.farWind (t := .avx512) (by decide) hlower
  exact ⟨_, hlower, by decide, by decide, hiff.mpr (by decide)⟩

/-- `mass(age+1, pos, lane) EQUALS (mass(age, pos, lane) * rate(lane, pos))`. -/
def Equation.laneDim : Equation :=
  let mass : Grid := ⟨"mass", [⟨"age", .step⟩, ⟨"pos", .domain⟩, ⟨"lane", .domain⟩], by decide⟩
  let rate : Grid := ⟨"rate", [⟨"lane", .domain⟩, ⟨"pos", .domain⟩], by decide⟩
  ⟨⟨mass, [1, 0, 0], by decide⟩,
    .binary .mul (.point ⟨mass, [0, 0, 0], by decide⟩) (.point ⟨rate, [0, 0], by decide⟩),
    by decide⟩

/-- A session that declares the two grids and adds the equation. -/
def Call.laneDim : List Call :=
  [.declareGrid "rate" [⟨"lane", .domain⟩, ⟨"pos", .domain⟩],
    .declareGrid "mass" [⟨"age", .step⟩, ⟨"pos", .domain⟩, ⟨"lane", .domain⟩],
    .addEquation .laneDim]

/-- **A dimension that is captured.** Along `pos` the elements of `mass` are read lane by lane, in a
    loop that hides the dimension `lane`: whatever the names are worth, the second index of the
    address is shifted by the third. -/
theorem Draft.lane_captured :
    let s := ((Draft.new "road" none).after Call.laneDim).solution
    let plan := Calc.Plan.of s .avx2
    let address := "grids.mass(age, pos + lane, lane)"
    ∃ k, s.lower true = .ok [k]
      ∧ "        " ++ Calc.laneLoop ++ "temp0_lanes[lane] = *" ++ address ++ ";"
          ∈ Header.equation plan k
      ∧ "lane" ∈ blockNames (Header.equation plan k) ∧ "lane" ∈ loopNames (Header.equation plan k)
      ∧ ¬ NamesApart (Header.equation plan k)
      ∧ ∀ env, element? env address
          = some (["grids", ".", "mass"], [env "age", env "pos" + env "lane", env "lane"]) := by
  intro s plan address
  set k := Equation.laneDim.kernel 0 true with hk
  have hvalid : s.Valid := Draft.valid_after "road" none Call.laneDim
  have hequations : s.equations = [.laneDim] := by decide
  have hlower : s.lower true = .ok [k] := by
    rw [Solution.lower, hequations, lowerFrom, Equation.lower_eq_kernel (by decide) 0 true]
    rfl
  -- the names are those of the general statement, and only the membership of `lane` is computed
  obtain ⟨hblock, hloop⟩ := plan.names_kernel (by decide)
    (hvalid.isIdentifier_params .avx2) .laneDim 0 true
  have hhere : "lane" ∈ blockNames (Header.equation plan k) := by
    rw [hblock]
    decide
  have hthere : "lane" ∈ loopNames (Header.equation plan k) := (hloop _).mpr ⟨rfl, by decide⟩
  refine ⟨k, hlower, by decide +kernel, hhere, hthere, fun h => h.loops _ hthere hhere, ?_⟩
  intro env
  have hlex : lex address
      = ["grids", ".", "mass", "(", "age", ",", "pos", "+", "lane", ",", "lane", ")"] := by
    decide +kernel
  rw [element?, hlex]
  rfl

end Stencil
