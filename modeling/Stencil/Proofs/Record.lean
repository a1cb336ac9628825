import Mathlib
import Stencil.Format.Lines
import Stencil.Proofs.Session

/-!
# The record of a session

An edit of a draft declares a grid, adds an equation or sets the element width. An edit that is
refused leaves everything as it was, the record included. An edit that is accepted adds its line to
the record (`Draft.perform_edit`). Both are read off what each call does step by step: it is not the
session that puts a draft back, the refused call itself has not changed it.

So the record of a session is the lines of its accepted edits, one after the other, and equations
are numbered there as they stand in the solution (`Draft.replays`). The number is taken from the
solution before the equation is entered, and no refused equation is ever counted.

The record is specified without a look at the solution: `Call.lines` makes the lines from the calls
alone, with a counter that only equations move. That the counter is always the number of equations
of the solution is the invariant of the induction (`Draft.Records.sides`). The record is therefore
enough to build the solution again: running the accepted edits alone leaves the same draft
(`Draft.Replays.after`).

Rendering is no edit: it is recorded before it can fail, so that a refused rendering leaves a line.
-/

namespace Stencil

/-- The two sides of an equation. -/
def Equation.sides (e : Equation) : Point × Expr := (e.lhs, e.rhs)

namespace Call

/-- The call is an edit of the solution. -/
def isEdit : Call → Bool
  | declareGrid _ _ | addEquation _ | equate _ _ | setElementBytes _ => true
  | setLog _ | render _ _ _ => false

/-- The sides of the equation that a call adds. -/
def sides? : Call → Option (Point × Expr)
  | addEquation e => some e.sides
  | equate lhs rhs => some (lhs, rhs)
  | _ => none

/-- The lines that record accepted calls, with equations numbered from `index` on. -/
def lines : Nat → List Call → List String
  | _, [] => []
  | index, declareGrid name dims :: calls =>
    ("Grid " ++ name ++ "(" ++ Text.join ", " (dims.map Dim.name) ++ ") declared.")
      :: lines index calls
  | index, addEquation e :: calls =>
    ("Equation " ++ toString index ++ ": " ++ equationText e.lhs e.rhs) :: lines (index + 1) calls
  | index, equate lhs rhs :: calls =>
    ("Equation " ++ toString index ++ ": " ++ equationText lhs rhs) :: lines (index + 1) calls
  | index, _ :: calls => lines index calls

/-- The lines of a first call come before those of the rest, which are numbered one higher if that
    call adds an equation. -/
theorem lines_cons (index : Nat) (c : Call) (calls : List Call) :
    lines index (c :: calls)
      = lines index [c] ++ lines (index + c.sides?.toList.length) calls := by
  cases c <;> rfl

end Call

/-! ## Lines in a sink -/

namespace Sink

/-- The sink after several lines. -/
def writeLines (s : Sink) (lines : List String) : Sink := lines.foldl writeLine s

theorem writeLines_append (s : Sink) (lines more : List String) :
    s.writeLines (lines ++ more) = (s.writeLines lines).writeLines more :=
  List.foldl_append

/-- A sink without a limit takes every line in, each with its line end, after what it holds
    already. -/
theorem writeLines_unlimited (lines : List String) :
    ∀ text, (⟨text, none⟩ : Sink).writeLines lines = ⟨text ++ unlines lines, none⟩ := by
  induction lines with
  | nil => intro text; simp [writeLines, unlines]
  | cons line lines ih =>
    intro text
    have hone : (⟨text, none⟩ : Sink).writeLine line = ⟨text ++ (line ++ "\n"), none⟩ := by
      simp [writeLine, write?, String.append_assoc]
    have hjoin : unlines (line :: lines) = line ++ "\n" ++ unlines lines := by
      simp [unlines, String.join_cons]
    show ((⟨text, none⟩ : Sink).writeLine line).writeLines lines = _
    rw [hone, ih, hjoin, String.append_assoc]

end Sink

/-! ## One edit -/

namespace Draft

/-- What an accepted edit does to a draft: its line is recorded with the number of the equations
    before it, and the sides of an equation come last among those of the solution. -/
structure Records (d : Draft) (c : Call) (d' : Draft) : Prop where
  log : d'.log = d.log.map (·.writeLines (Call.lines d.solution.equations.length [c]))
  sides : d'.solution.equations.map Equation.sides
    = d.solution.equations.map Equation.sides ++ c.sides?.toList

/-- An accepted declaration is recorded by the line with its name and dimensions, and adds no
    equation. -/
theorem declareGrid_records {d d' : Draft} {name : String} {dims : List Dim} {g : Grid}
    (h : d.declareGrid name dims = (.ok g, d')) : d.Records (.declareGrid name dims) d' := by
  obtain ⟨_, hmake, _, rfl⟩ := declareGrid_eq_ok_iff.mp h
  obtain ⟨rfl, rfl⟩ := Grid.make_eq_ok_iff.mp hmake
  refine ⟨?_, (List.append_nil _).symm⟩
  simp [advance, record, Sink.writeLines, Call.lines, gridLine, Grid.text, Grid.dimNames,
    String.append_assoc]

/-- An accepted equation is recorded with its number, which is the number of equations before it,
    and comes last. -/
theorem addEquation_records {d d' : Draft} {e : Equation} {u : Unit}
    (h : d.addEquation e = (.ok u, d')) : d.Records (.addEquation e) d' := by
  obtain ⟨_, rfl⟩ := addEquation_eq_ok_iff.mp h
  exact ⟨rfl, List.map_append⟩

/-- An equation made from its two sides is recorded just as one that is added ready made. -/
theorem equate_records {d d' : Draft} {lhs : Point} {rhs : Expr} {e : Equation}
    (h : d.equate lhs rhs = (.ok e, d')) : d.Records (.equate lhs rhs) d' := by
  obtain ⟨rfl, rfl, hadd⟩ := equate_eq_ok_iff.mp h
  -- the line of an equation does not tell how it was made
  obtain ⟨hlog, hsides⟩ := addEquation_records hadd
  exact ⟨hlog, hsides⟩

/-- Setting the width is an edit that leaves no line: the record speaks of grids and equations
    alone. -/
theorem setElementBytes_records {d d' : Draft} {bytes : Nat} {u : Unit}
    (h : d.setElementBytes bytes = (.ok u, d')) : d.Records (.setElementBytes bytes) d' := by
  obtain ⟨w, _, rfl⟩ := setElementBytes_eq_ok_iff.mp h
  refine ⟨?_, (List.append_nil _).symm⟩
  simp [Sink.writeLines, Call.lines]

/-- A call of which both cases are known is refused and leaves the draft as it was, or it is accepted
    and recorded. -/
theorem refused_or_records {α : Type} {d : Draft} {c : Call} {call : Edit α}
    (hperform : d.perform c = ((d.run call).1.map fun _ => (), (d.run call).2))
    (hrefused : ∀ {e d'}, d.run call = (.error e, d') → d' = d)
    (hok : ∀ {a d'}, d.run call = (.ok a, d') → d.Records c d') :
    (∃ e, d.perform c = (.error e, d)) ∨ ∃ d', d.perform c = (.ok (), d') ∧ d.Records c d' := by
  rw [hperform]
  cases hrun : d.run call with
  | mk r d' =>
    cases r with
    | error e =>
      obtain rfl := hrefused hrun
      exact Or.inl ⟨e, rfl⟩
    | ok a => exact Or.inr ⟨d', rfl, hok hrun⟩

/-- **One edit** is refused and leaves the draft as it was, its record included, or it is accepted and
    recorded. There is nothing in between. -/
theorem perform_edit (d : Draft) {c : Call} (hc : c.isEdit = true) :
    (∃ e, d.perform c = (.error e, d)) ∨ ∃ d', d.perform c = (.ok (), d') ∧ d.Records c d' := by
  cases c with
  | declareGrid name dims =>
    exact refused_or_records (d.perform_declareGrid name dims) (fun h => (declareGrid_refused h).1)
      declareGrid_records
  | addEquation e =>
    exact refused_or_records (d.run_unit _) (fun h => (addEquation_refused h).1) addEquation_records
  | equate lhs rhs =>
    exact refused_or_records (d.perform_equate lhs rhs) (fun h => (equate_refused h).1)
      equate_records
  | setElementBytes bytes =>
    exact refused_or_records (d.run_unit _) (fun h => (setElementBytes_refused h).1)
      setElementBytes_records
  | setLog log => exact absurd hc (by simp [Call.isEdit])
  | render registry id out => exact absurd hc (by simp [Call.isEdit])

/-! ## Whole sessions -/

/-- The calls of a session that are accepted, in order. -/
def accepted (d : Draft) : List Call → List Call
  | [] => []
  | c :: calls =>
    match (d.perform c).1 with
    | .ok () => c :: (d.perform c).2.accepted calls
    | .error _ => (d.perform c).2.accepted calls

/-- Whether a call is accepted depends on the draft that the calls before it left, and on nothing
    that comes later. -/
theorem accepted_cons (d : Draft) (c : Call) (calls : List Call) :
    d.accepted (c :: calls)
      = (if (d.perform c).1.isOk then [c] else []) ++ (d.perform c).2.accepted calls := by
  rw [accepted]
  rcases (d.perform c).1 with e | ⟨⟩ <;> rfl

/-- What a session of edits leaves: the lines of the accepted ones have been recorded, their
    equations come last, and without the refused ones everything would be the same. -/
structure Replays (d : Draft) (calls : List Call) : Prop where
  log : (d.after calls).log
    = d.log.map (·.writeLines (Call.lines d.solution.equations.length (d.accepted calls)))
  sides : (d.after calls).solution.equations.map Equation.sides
    = d.solution.equations.map Equation.sides ++ (d.accepted calls).filterMap Call.sides?
  after : d.after (d.accepted calls) = d.after calls

/-- A refused edit can be left out: the rest of the session starts from the same draft without
    it. -/
theorem Replays.refused {d : Draft} {c : Call} {e : Error} {calls : List Call}
    (hperform : d.perform c = (.error e, d)) (h : d.Replays calls) : d.Replays (c :: calls) := by
  have hafter : d.after (c :: calls) = d.after calls := by
    show (d.perform c).2.after calls = d.after calls
    rw [hperform]
  have haccepted : d.accepted (c :: calls) = d.accepted calls := by
    simp only [accepted, hperform]
  refine ⟨?_, ?_, ?_⟩
  · rw [hafter, haccepted, h.log]
  · rw [hafter, haccepted, h.sides]
  · rw [hafter, haccepted, h.after]

/-- An accepted edit comes before what the rest of the session leaves. -/
theorem Replays.accepted {d d' : Draft} {c : Call} {calls : List Call}
    (hperform : d.perform c = (.ok (), d')) (hc : d.Records c d') (h : d'.Replays calls) :
    d.Replays (c :: calls) := by
  have hafter : ∀ calls, d.after (c :: calls) = d'.after calls := by
    intro calls
    show (d.perform c).2.after calls = d'.after calls
    rw [hperform]
  have haccepted : d.accepted (c :: calls) = c :: d'.accepted calls := by
    simp only [Draft.accepted, hperform]
  -- the equation of the edit, if it has one, is counted before the next one is recorded
  have hcount : d'.solution.equations.length
      = d.solution.equations.length + c.sides?.toList.length := by
    simpa using congrArg List.length hc.sides
  refine ⟨?_, ?_, ?_⟩
  · rw [hafter, haccepted, h.log, hc.log, hcount, Call.lines_cons _ c (d'.accepted calls),
      Option.map_map]
    exact Option.map_congr fun s _ => (s.writeLines_append _ _).symm
  · rw [hafter, haccepted, h.sides, hc.sides, List.append_assoc, List.filterMap_cons]
    cases c.sides? with
    | none => rfl
    | some sides => rfl
  · rw [haccepted, hafter, hafter, h.after]

/-- **Every session of edits** is recorded by the lines of its accepted edits, and replaying these
    alone leaves the same draft. -/
theorem replays (calls : List Call) :
    ∀ d : Draft, (∀ c ∈ calls, c.isEdit = true) → d.Replays calls := by
  induction calls with
  -- the draft is generalised: the rest of a session starts from whatever its first call left
  | nil =>
    intro d _
    refine ⟨?_, (List.append_nil _).symm, rfl⟩
    simp [after, Draft.accepted, Call.lines, Sink.writeLines]
  | cons c calls ih =>
    intro d hedits
    have hrest : ∀ c ∈ calls, c.isEdit = true := fun c hc => hedits c (List.mem_cons_of_mem _ hc)
    rcases d.perform_edit (hedits c List.mem_cons_self) with ⟨e, hrefused⟩ | ⟨d', hok, hrecords⟩
    · exact .refused hrefused (ih d hrest)
    · exact .accepted hok hrecords (ih d' hrest)

/-- A refused edit leaves the draft as it was, whichever edit it is and for whatever reason it is
    refused. -/
theorem perform_refused {d : Draft} {c : Call} (hc : c.isEdit = true) {e : Error}
    (h : (d.perform c).1 = .error e) : (d.perform c).2 = d := by
  rcases d.perform_edit hc with ⟨e', hperform⟩ | ⟨d', hperform, _⟩
  · rw [hperform]
  · rw [hperform] at h
    cases h

/-- The record of a new solution, in a sink without a limit that was empty. -/
theorem log_after (name : String) {calls : List Call} (hedits : ∀ c ∈ calls, c.isEdit = true) :
    ((Draft.new name (some (.empty none))).after calls).log
      = some ⟨unlines (Call.lines 0 ((Draft.new name (some (.empty none))).accepted calls)), none⟩ := by
  rw [(replays calls _ hedits).log]
  show some ((Sink.empty none).writeLines _) = _
  rw [Sink.empty, Sink.writeLines_unlimited, String.empty_append]
  rfl

end Draft

end Stencil
