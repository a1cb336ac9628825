import Mathlib
import Stencil.Proofs.CodeTokens
import Stencil.Proofs.Lanes
import Stencil.Proofs.Sharing

/-!
# Addresses denote the cells of points

The text of an address is read back as integer arithmetic: a call whose arguments are sums of names
and numbers, worth what the names are worth. Integers are unbounded here, so that no offset is too
large to be read.

The addresses of a function are those of the points of its equation (`Calc.Plan.address?_kernel`).
Their indices are the dimensions shifted by the offsets, and one of them by the lane where a single
lane is meant; the point as it is written has the same indices without the lane
(`Draft.addresses_denote_cells`). Which declaration a name belongs to is no matter of reading: it is
worth the same wherever it stands.

The reader knows nothing of addresses: it splits the tokens of a call at its commas and adds up each
argument (`element?`). That it finds one argument for each dimension is a fact about the text, since
a name with a comma or a parenthesis in it would be split as well; names of solutions are
identifiers, and therefore single tokens.
-/

namespace Stencil

/-! ## Reading integer arithmetic -/

namespace Code

/-- What a token is worth where names have the given values. -/
def value? (env : String → Int) (token : String) : Option Int :=
  if isIdentifier token then some (env token)
  else if token.toList.all isDigit then some (ofDigits token.toList)
  else none

/-- What a sum is worth whose first terms make `total`. -/
def sumFrom? (env : String → Int) (total : Int) : List String → Option Int
  | [] => some total
  | sign :: token :: rest => do
    let v ← value? env token
    if sign = "+" then sumFrom? env (total + v) rest
    else if sign = "-" then sumFrom? env (total - v) rest
    else none
  | [_] => none

/-- What a sum is worth, from left to right. -/
def sum? (env : String → Int) : List String → Option Int
  | [] => none
  | token :: rest => do sumFrom? env (← value? env token) rest

/-- What is called and with which arguments, where there is one pair of parentheses. -/
def call? (tokens : List String) : Option (List String × List (List String)) :=
  match tokens.dropWhile (· != "(") with
  | [] => none
  | _ :: inner =>
    if inner.getLast? = some ")" then
      some (tokens.takeWhile (· != "("), inner.dropLast.splitOn ",")
    else none

/-- What is called in a text, and what its arguments are worth. -/
def element? (env : String → Int) (text : String) : Option (List String × List Int) := do
  let (callee, args) ← call? (lex text)
  return (callee, ← args.mapM (sum? env))

/-! ## Indices -/

theorem value?_name {env : String → Int} {token : String} (h : isIdentifier token = true) :
    value? env token = some (env token) :=
  if_pos h

theorem isLetter_eq_false_of_isDigit {c : Char} (h : isDigit c = true) : isLetter c = false := by
  by_contra hletter
  rw [Bool.not_eq_false, isLetter_iff] at hletter
  rw [isDigit_eq] at h
  rcases hletter with halpha | rfl
  · grind [Char.isAlpha, Char.isDigit, Char.isUpper, Char.isLower]
  · exact absurd h (by decide)

/-- A numeral is no name, so that it can be worth only the number it writes. -/
theorem not_isIdentifier_toString (n : Nat) : isIdentifier (toString n) = false := by
  have hdigits := toList_toString n
  unfold isIdentifier
  cases hcs : (toString n).toList with
  | nil => rfl
  | cons c cs =>
    have hc : isDigit c = true := by
      apply isDigit_of_mem_toDigits (n := n)
      rw [← hdigits, hcs]
      exact List.mem_cons_self
    simp [isLetter_eq_false_of_isDigit hc]

theorem value?_toString (env : String → Int) (n : Nat) :
    value? env (toString n) = some (n : Int) := by
  have hdigits := toList_toString n
  have hall : (toString n).toList.all isDigit = true := by
    rw [hdigits, List.all_eq_true]
    intro c hc
    exact isDigit_of_mem_toDigits hc
  rw [value?, if_neg (by rw [not_isIdentifier_toString]; exact Bool.false_ne_true), if_pos hall,
    hdigits, ofDigits_toDigits]

/-- An offset is added with its sign; an offset of zero is not written and adds nothing. -/
theorem sumFrom?_offset (env : String → Int) (total : Int) (o : Int64) :
    sumFrom? env total (offsetTokens o) = some (total + o.toInt) := by
  unfold offsetTokens
  split_ifs with hzero hpos
  · subst hzero
    show some total = some (total + 0)
    rw [Int.add_zero]
  · have habs : (o.toInt.natAbs : Int) = o.toInt := by omega
    show (value? env _).bind _ = _
    rw [value?_toString, habs]
    rfl
  · have hneg := toInt_neg_of_not_pos hzero hpos
    have habs : (o.toInt.natAbs : Int) = -o.toInt := by omega
    show (value? env _).bind _ = _
    rw [value?_toString, habs]
    exact congrArg some (Int.sub_neg _ _)

/-- **An index is a sum**: the dimension, the lane, and the offset, whatever 64 bits it has. -/
theorem sum?_index (env : String → Int) (i : Calc.AddressIndex) (h : isIdentifier i.dim = true) :
    sum? env (indexTokens i)
      = some (env i.dim + (if i.lane then env "lane" else 0) + i.offset.toInt) := by
  have hlane : value? env "lane" = some (env "lane") := value?_name rfl
  cases hl : i.lane <;>
    simp [sum?, indexTokens, value?_name h, hl, sumFrom?, hlane, sumFrom?_offset]

/-! ## Elements -/

/-- A call is split into what is called and its arguments, if no argument has a comma of its own. -/
theorem call?_callTokens {callee : List String} {args : List (List String)} (hcallee : "(" ∉ callee)
    (hne : args ≠ []) (hargs : ∀ arg ∈ args, "," ∉ arg) :
    call? (callTokens callee args) = some (callee, args) := by
  have hp : ∀ t ∈ callee, (t != "(") = true := by
    intro t ht
    simp only [bne_iff_ne]
    exact fun h => hcallee (h ▸ ht)
  have hdrop : (callTokens callee args).dropWhile (· != "(")
      = "(" :: (List.intercalate [","] args ++ [")"]) := by
    rw [callTokens, List.dropWhile_append_of_pos hp]
    rfl
  have htake : (callTokens callee args).takeWhile (· != "(") = callee := by
    rw [callTokens, List.takeWhile_append_of_pos hp]
    simp
  rw [call?, hdrop, htake]
  simp [List.splitOn_intercalate _ hargs hne]

theorem comma_not_mem_index {i : Calc.AddressIndex} (h : IsWord i.dim) : "," ∉ indexTokens i := by
  have hword : ∀ {text : String}, IsWord text → "," ≠ text := fun h =>
    (h.ne (List.mem_singleton.mpr rfl : ',' ∈ [',']) rfl).symm
  have hoffset : "," ∉ offsetTokens i.offset := by
    unfold offsetTokens
    split_ifs
    · exact List.not_mem_nil
    · simpa using hword (isWord_toString _)
    · simpa using hword (isWord_toString _)
  have hlane : "," ∉ (if i.lane = true then ["+", "lane"] else []) := by
    split_ifs <;> decide
  rw [indexTokens, List.mem_cons, List.mem_append, not_or, not_or]
  exact ⟨hword h, hlane, hoffset⟩

/-- **A call whose arguments are indices** is read as what is called and the sums. -/
theorem element?_indices (env : String → Int) {text : String} {callee : List String}
    {indices : List Calc.AddressIndex}
    (hlex : lex text = callTokens callee (indices.map indexTokens)) (hcallee : "(" ∉ callee)
    (hne : indices ≠ []) (hdims : ∀ i ∈ indices, isIdentifier i.dim = true) :
    element? env text = some (callee, indices.map fun i =>
      env i.dim + (if i.lane then env "lane" else 0) + i.offset.toInt) := by
  have hcall : call? (lex text) = some (callee, indices.map indexTokens) := by
    rw [hlex]
    refine call?_callTokens hcallee (by simpa using hne) ?_
    rintro arg harg
    obtain ⟨i, hi, rfl⟩ := List.mem_map.mp harg
    exact comma_not_mem_index (isWord_of_isIdentifier (hdims i hi))
  -- the arguments are independent of each other, so that the induction is on the list of them
  have hsums : ∀ is : List Calc.AddressIndex, (∀ i ∈ is, isIdentifier i.dim = true) →
      (is.map indexTokens).mapM (sum? env) = some (is.map fun i =>
        env i.dim + (if i.lane then env "lane" else 0) + i.offset.toInt) := by
    intro is his
    induction is with
    | nil => rfl
    | cons i is ih =>
      obtain ⟨hi, his⟩ := List.forall_mem_cons.mp his
      rw [List.map_cons, List.mapM_cons, sum?_index env i hi, ih his]
      rfl
  rw [element?, hcall]
  show ((indices.map indexTokens).mapM (sum? env)).bind _ = _
  rw [hsums indices hdims]
  rfl

end Code

/-! ## Addresses of points -/

open Code

theorem Grid.isIdentifier_name (g : Grid) : isIdentifier g.name = true :=
  (isIdentifier_iff _).mpr g.shape.name

theorem Grid.isIdentifier_dim {g : Grid} {d : Dim} (h : d ∈ g.dims) : isIdentifier d.name = true :=
  (isIdentifier_iff _).mpr (g.shape.dimNames d h)

/-- A point has an index for each dimension of its grid, and every grid has a dimension. -/
theorem Point.indices_ne_nil (p : Point) : p.indices ≠ [] := by
  intro h
  apply p.grid.shape.nonempty
  rw [← p.map_fst_indices, h]
  rfl

theorem Point.paren_ne_name (p : Point) : "(" ≠ p.grid.name :=
  ((isWord_of_isIdentifier p.grid.isIdentifier_name).ne (List.mem_singleton.mpr rfl : '(' ∈ ['('])
    rfl).symm

/-- **A call whose arguments are the dimensions of a point with its offsets**, and with the lane for
    some of them. -/
theorem Point.element?_of_lex (p : Point) (env : String → Int) (lane : Dim → Bool) {text : String}
    {callee : List String} (hcallee : "(" ∉ callee)
    (hlex : lex text
      = callTokens callee (p.indices.map fun (d, o) => indexTokens ⟨d.name, lane d, o⟩)) :
    element? env text = some (callee, p.indices.map fun (d, o) =>
      env d.name + o.toInt + if lane d then env "lane" else 0) := by
  set indices : List Calc.AddressIndex := p.indices.map fun (d, o) => ⟨d.name, lane d, o⟩ with hdef
  have hlex' : lex text = callTokens callee (indices.map indexTokens) := by
    rw [hlex, hdef, List.map_map]
    rfl
  have hdims : ∀ i ∈ indices, isIdentifier i.dim = true := by
    intro i hi
    obtain ⟨ix, hix, rfl⟩ := List.mem_map.mp hi
    exact Grid.isIdentifier_dim (List.of_mem_zip hix).1
  have hne : indices ≠ [] := by simpa [hdef] using p.indices_ne_nil
  rw [element?_indices env hlex' hcallee hne hdims, hdef, List.map_map]
  congr 2
  refine List.map_congr_left ?_
  rintro ⟨d, o⟩ _
  show env d.name + (if lane d = true then env "lane" else 0) + o.toInt = _
  rw [Int.add_right_comm]

/-- An address is read as a call of a member of `grids`, with an argument for each index. -/
theorem Calc.Plan.lex_address (plan : Calc.Plan) (p : Point) (lane : Bool) :
    lex (plan.address p lane).text
      = callTokens ["grids", ".", p.grid.name] ((plan.address p lane).indices.map indexTokens) := by
  apply Code.lex_address _ (isWord_of_isIdentifier p.grid.isIdentifier_name)
  intro i hi
  obtain ⟨ix, hix, rfl⟩ := List.mem_map.mp hi
  exact isWord_of_isIdentifier (Grid.isIdentifier_dim (List.of_mem_zip hix).1)

/-- **An address denotes the cell of its point**, moved along the lanes by the lane where a single
    one is meant. -/
theorem Calc.Plan.element?_address (plan : Calc.Plan) (p : Point) (lane : Bool)
    (env : String → Int) :
    element? env (plan.address p lane).text
      = some (["grids", ".", p.grid.name], p.indices.map fun (d, o) =>
          env d.name + o.toInt
            + if lane = true ∧ some d.name = plan.vectorDim then env "lane" else 0) := by
  have hcallee : "(" ∉ ["grids", ".", p.grid.name] := by simpa using p.paren_ne_name
  rw [p.element?_of_lex env (fun d => lane && some d.name == plan.vectorDim) hcallee
    (by rw [plan.lex_address, Plan.address, List.map_map]; rfl)]
  simp only [Bool.and_eq_true, beq_iff_eq]

/-- **The text of a point denotes the same cell**, under the name of its grid alone. -/
theorem Point.element?_text (p : Point) (env : String → Int) :
    element? env p.text
      = some ([p.grid.name], p.indices.map fun (d, o) => env d.name + o.toInt) := by
  have hdims : ∀ d ∈ p.grid.dims, IsWord d.name := fun d hd =>
    isWord_of_isIdentifier (Grid.isIdentifier_dim hd)
  have hlex := lex_point p (isWord_of_isIdentifier p.grid.isIdentifier_name) hdims
  rw [p.element?_of_lex env (fun _ => false) (by simpa using p.paren_ne_name) hlex]
  simp

/-! ## Addresses of generated code -/

namespace Calc

/-- The address that a statement reads or writes. -/
def Stmt.address? : Stmt → Option Address
  | loadOne _ a | loadRow _ a | loadSplat _ a | fillLanes _ a => some a
  | storeOne a _ | storeRow a _ | storeLast a | storeLanes a => some a
  | _ => none

/-- The address that a function has of a point: that of one lane, where it goes lane by lane. -/
def Plan.addressOf (plan : Plan) (p : Point) : Address := plan.address p (plan.isStrided p)

/-- However a point is loaded, at once, lane by lane or as one value, its address is written just
    once. -/
theorem Plan.address?_load (plan : Plan) (dst : Temp) (p : Point) :
    (plan.load dst p).filterMap Stmt.address? = [plan.addressOf p] := by
  unfold Plan.load Plan.addressOf Plan.isStrided
  cases plan.target.isVector with
  | false => rfl
  | true => cases plan.access p <;> rfl

theorem Plan.address?_store (plan : Plan) (p : Point) (src : Temp) :
    (plan.store p src).filterMap Stmt.address? = [plan.addressOf p] := by
  unfold Plan.store Plan.addressOf Plan.isStrided
  cases plan.target.isVector with
  | false => rfl
  | true => cases plan.access p <;> rfl

/-- An instruction has the address of the point that it loads or stores, and no other. -/
theorem Plan.address?_instr (plan : Plan) (i : Instr) :
    (plan.instr i).filterMap Stmt.address? = (i.operation.point?.map plan.addressOf).toList := by
  unfold Plan.instr
  cases i.operation with
  | load p => exact plan.address?_load i.dst p
  | const v => rfl
  | binary op lhs rhs => rfl

/-- **The addresses of a function** are those of the points that are loaded, in order, and of the
    point that is stored. -/
theorem Plan.address?_body (plan : Plan) (k : Kernel) :
    (plan.body k).filterMap Stmt.address?
      = (loadedPoints k.instrs ++ [k.store]).map plan.addressOf := by
  have hinstrs : (k.instrs.flatMap plan.instr).filterMap Stmt.address?
      = (loadedPoints k.instrs).map plan.addressOf := by
    rw [List.filterMap_flatMap, loadedPoints, List.map_filterMap, List.filterMap_eq_flatMap_toList]
    exact congrArg k.instrs.flatMap (funext plan.address?_instr)
  rw [Plan.body, List.filterMap_append, hinstrs, List.map_append]
  exact congrArg _ (plan.address?_store k.store k.result)

/-- The addresses of a function: every point of the right side once, in the order of its first use,
    and then the point that is written. -/
theorem Plan.address?_kernel (plan : Plan) (e : Equation) (index : Nat) (share : Bool) :
    (plan.body (e.kernel index share)).filterMap Stmt.address?
      = (e.rhs.points.eraseDups ++ [e.lhs]).map plan.addressOf := by
  have hstart : loadedPoints Lowering.start.instrs = ([] : List Point).eraseDups := rfl
  have hloaded : loadedPoints (e.kernel index share).instrs = e.rhs.points.eraseDups :=
    Lowering.loadedPoints_lower share e.rhs hstart
  rw [plan.address?_body, hloaded]
  rfl

end Calc

/-! ## Dimensions in scope -/

theorem Solution.Valid.isIdentifier_params {s : Solution} (h : s.Valid) (t : Target) :
    ∀ name ∈ (Calc.Plan.of s t).params, isIdentifier name = true := by
  intro name hname
  obtain ⟨d, hd, rfl⟩ := List.mem_map.mp hname
  obtain ⟨g, hg, hd⟩ := h.mem_dims.mp (h.mem_writtenDims.mp hd)
  exact Grid.isIdentifier_dim hd

/-- At most one dimension of a grid has a given name. -/
theorem Grid.length_filter_name_le_one (g : Grid) (name : Option String) :
    (g.dims.filter fun d => some d.name == name).length ≤ 1 := by
  cases name with
  | none => simp
  | some name =>
    have hcount : (g.dims.filter fun d => some d.name == some name).length
        = (g.dims.map Dim.name).count name := by
      rw [← List.countP_eq_length_filter, List.count_eq_countP, List.countP_map]
      rfl
    rw [hcount]
    exact List.nodup_iff_count_le_one.mp g.shape.distinct name

/-- **Addresses are in scope and denote the cells of points.** In every solution that a session
    leaves, and for every target: a function takes `grids` and the dimensions, the step dimension
    first, and no dimension twice. Its addresses are those of the points of its equation, and the
    dimensions of the points are parameters. For all offsets of 64 bits, an index of an address is
    worth its dimension and its offset, and the lane in addition where a lane is asked for and the
    dimension is the one that vector code goes along, which happens once at most. The point as it is
    written is worth the same without the lane. -/
theorem Draft.addresses_denote_cells (name : String) (log : Option Sink) (calls : List Call)
    (t : Target) :
    let s := ((Draft.new name log).after calls).solution
    let plan := Calc.Plan.of s t
    let params := (s.stepDim?.toList ++ s.domainDims).map Dim.name
    params.Nodup
      ∧ (∀ k, signature plan ∈ Header.equation plan k)
      ∧ declared (lex (signature plan)) = "grids" :: params
      ∧ (∀ (e : Equation) index share k, e.lower index share = .ok k →
          (plan.body k).filterMap Calc.Stmt.address?
            = (e.rhs.points.eraseDups ++ [e.lhs]).map fun p => plan.address p (plan.isStrided p))
      ∧ (∀ e ∈ s.equations, ∀ p ∈ e.points, p.grid ∈ s.grids)
      ∧ ∀ p : Point, p.grid ∈ s.grids →
          (∀ d ∈ p.grid.dims, d.name ∈ params)
            ∧ (p.grid.dims.filter fun d => some d.name == plan.vectorDim).length ≤ 1
            ∧ ∀ (lane : Bool) (env : String → Int),
                element? env (plan.address p lane).text
                    = some (["grids", ".", p.grid.name], p.indices.map fun (d, o) =>
                        env d.name + o.toInt
                          + if lane = true ∧ some d.name = plan.vectorDim then env "lane" else 0)
                  ∧ element? env p.text
                    = some ([p.grid.name], p.indices.map fun (d, o) => env d.name + o.toInt) := by
  intro s plan params
  have hvalid : s.Valid := Draft.valid_after name log calls
  refine ⟨hvalid.nodup_writtenDims, ?_, declared_signature plan (hvalid.isIdentifier_params t),
    ?_, ?_, ?_⟩
  · intro k
    -- the fourth line
    apply List.mem_append_left
    apply List.mem_append_left
    iterate 3 apply List.mem_cons_of_mem
    exact List.mem_cons_self
  · intro e index share k hk
    rw [Equation.eq_kernel_of_lower hk]
    exact plan.address?_kernel e index share
  · intro e he p hp
    exact ((hvalid.lookup _ _).mp (hvalid.points e he p hp).1).1
  · intro p hp
    refine ⟨?_, ?_, fun lane env => ⟨plan.element?_address p lane env, p.element?_text env⟩⟩
    · intro d hd
      exact List.mem_map_of_mem (hvalid.dims_subset hp hd)
    · exact p.grid.length_filter_name_le_one plan.vectorDim

/-- `wind(tau, col-9223372036854775808, row+9223372036854775807)`. -/
def Point.farWind : Point :=
  ⟨⟨"wind", [⟨"tau", .step⟩, ⟨"col", .domain⟩, ⟨"row", .domain⟩], by decide⟩,
    [0, -9223372036854775808, 9223372036854775807], by decide⟩

/-- The equation that gives `brine(tau+1, row, col)` the value of that point. Along `col`, the
    elements of `wind` lie apart. -/
def Equation.farWind : Equation :=
  ⟨⟨⟨"brine", [⟨"tau", .step⟩, ⟨"row", .domain⟩, ⟨"col", .domain⟩], by decide⟩,
    [1, 0, 0], by decide⟩, .point .farWind, by decide⟩

/-- A session that declares the two grids and adds the equation. -/
def Call.farWind : List Call :=
  [.declareGrid "brine" [⟨"tau", .step⟩, ⟨"row", .domain⟩, ⟨"col", .domain⟩],
    .declareGrid "wind" [⟨"tau", .step⟩, ⟨"col", .domain⟩, ⟨"row", .domain⟩],
    .addEquation .farWind]

/-- The ends of the range of offsets, in an address that is read lane by lane. -/
theorem Draft.addresses_denote_cells_farWind :
    let s := ((Draft.new "coast" none).after Call.farWind).solution
    let plan := Calc.Plan.of s .avx512
    let env : String → Int := fun name => if name = "lane" then 3 else 100
    declared (lex (signature plan)) = ["grids", "tau", "row", "col"]
      ∧ (∃ k, Equation.farWind.lower 0 true = .ok k
        ∧ (plan.body k).filterMap Calc.Stmt.address?
          = [plan.address .farWind true, plan.address Equation.farWind.lhs false])
      ∧ (plan.address .farWind true).text
        = "grids.wind(tau, col + lane - 9223372036854775808, row + 9223372036854775807)"
      ∧ element? env (plan.address .farWind true).text
        = some (["grids", ".", "wind"], [100, -9223372036854775705, 9223372036854775907])
      ∧ element? env Point.farWind.text
        = some (["wind"], [100, -9223372036854775708, 9223372036854775907]) := by
  intro s plan env
  obtain ⟨_, _, hparams, hbody, hpoints, hcells⟩ :=
    Draft.addresses_denote_cells "coast" none Call.farWind .avx512
  have he : Equation.farWind ∈ s.equations := by decide
  have hp : Point.farWind ∈ Equation.farWind.points := by decide
  obtain ⟨_, _, helement⟩ := hcells .farWind (hpoints _ he _ hp)
  obtain ⟨haddress, htext⟩ := helement true env
  have hlower := Equation.lower_eq_kernel (e := .farWind) (by decide) 0 true
  refine ⟨hparams, ⟨_, hlower, (hbody _ 0 true _ hlower).trans (by decide)⟩, by decide,
    haddress.trans (by decide), htext.trans (by decide)⟩

end Stencil
