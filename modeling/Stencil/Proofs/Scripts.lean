import Mathlib
import Stencil.Proofs.Record
import Stencil.Workbench

/-!
# Scripts and sessions

A workbench runs scripts: each step looks registers up, calls the model, and puts results back into
registers. A session is a list of calls on one draft. This module says that the first is made of the
second.

* A refused step leaves the whole workbench as it was, all registers and all sinks (`step_refused`).
  The only exception is a rendering, which is recorded before it can fail. This is read off the
  order in which a step acts: what can be refused comes before what changes something
  (`Act.Atomic`), and the model's own calls are like that too.
* A step that edits a solution does to the solution and to the sink of its record what one call does
  to a draft (`step_edits`), so that a script of edits does what a session does (`replays_edits`).
* Whatever the script is, every solution on the workbench is one that a session leaves
  (`exists_session`). So what is proved of sessions holds of everything that scripts can build.

The workbench keeps sinks by their number. That a number in use is always one of a sink
(`Workbench.Sound`) is what makes the record of a solution the same sink before and after a step.

Three properties of acts carry all this. An act that *reads* (`Act.Reads`) changes nothing, refused
or not. An act that is *certain* (`Act.Certain`) is never refused. A step is made of acts that read,
followed by one call of the model, followed by acts that are certain, and such a row is atomic
(`Reads.then`, `Atomic.then`). Each step is classified once, in the shape of its own definition
(`atomic_ofStep`, `keeps_ofStep`); what is said of scripts afterwards looks at no step again.
-/

namespace Stencil

/-! ## Registers -/

namespace Registers

variable {α : Type}

/-- What is found after an entry has been put in is that entry under its own name, and what was
    there under every other name. -/
theorem lookup_put (name name' : String) (a : α) (entries : List (String × α)) :
    (put name a entries).lookup name' = if name' = name then some a else entries.lookup name' := by
  induction entries with
  | nil =>
    show List.lookup name' [(name, a)] = _
    by_cases h : name' = name
    · simp [h]
    · simp [h, List.lookup_cons, beq_false_of_ne h]
  | cons entry entries ih =>
    obtain ⟨key, b⟩ := entry
    unfold put
    by_cases hkey : key = name
    · subst hkey
      by_cases h : name' = key
      · simp [h]
      · simp [h, List.lookup_cons, beq_false_of_ne h]
    · by_cases h : name' = key
      · subst h
        simp [hkey]
      · simp [hkey, List.lookup_cons, beq_false_of_ne h, ih]

/-- What a name stands for after one was set. -/
theorem get?_set (r : Registers α) (name name' : String) (a : α) :
    (r.set name a).get? name' = if name' = name then some a else r.get? name' :=
  lookup_put name name' a r.entries

/-- Letting a name stand for what it stands for changes nothing. -/
theorem set_of_get? {r : Registers α} {name : String} {a : α} (h : r.get? name = some a) :
    r.set name a = r := by
  obtain ⟨entries⟩ := r
  have hput : put name a entries = entries := by
    unfold get? at h
    induction entries with
    | nil => cases h
    | cons entry entries ih =>
      obtain ⟨key, b⟩ := entry
      unfold put
      by_cases hkey : key = name
      · subst hkey
        have hb : some b = some a := by simpa [List.lookup_cons] using h
        rw [Option.some.inj hb]
        simp
      · have hne : (name == key) = false := by simpa using fun h => hkey h.symm
        simp only [List.lookup_cons, hne] at h
        rw [if_neg (by simpa using hkey), ih h]
  rw [set, hput]

end Registers

/-! ## Drafts on a workbench -/

namespace Workbench

/-- A sink that is put back as it is changes nothing. -/
theorem setSink_sink (w : Workbench) (id : SinkId) : w.setSink id (w.sink id) = w := by
  obtain ⟨dims, grids, points, exprs, equations, solutions, outputs, registries, sinks⟩ := w
  have hset : sinks.set id.index (sinks.getD id.index (.empty none)) = sinks := by
    by_cases hid : id.index < sinks.length
    · rw [List.getD_eq_getElem _ _ hid, List.set_getElem_self]
    · exact List.set_eq_of_length_le (by omega)
  simp only [setSink, sink, hset]

/-- A draft that is put back as it is changes nothing. -/
theorem putDraft_draft {w : Workbench} {name : String} {d : Desk}
    (h : w.solutions.get? name = some d) : w.putDraft name d (w.draft d) = w := by
  have hlog : w.putLog d (w.draft d) = w := by
    unfold putLog draft
    cases d.log with
    | none => rfl
    | some id => exact w.setSink_sink id
  unfold putDraft
  rw [hlog]
  show { w with solutions := w.solutions.set name d } = w
  rw [Registers.set_of_get? h]

end Workbench

/-! ## Acts -/

namespace Act

variable {α β : Type}

/-- The act never changes anything. -/
def Reads (act : Act α) : Prop := ∀ w : Workbench, (w.perform act).2 = w

/-- The act is never refused. -/
def Certain (act : Act α) : Prop := ∀ w : Workbench, ∃ a, (w.perform act).1 = .ok a

/-- The act changes nothing if it is refused. -/
def Atomic (act : Act α) : Prop :=
  ∀ (w : Workbench) (e : Refusal), (w.perform act).1 = .error e → (w.perform act).2 = w

/-- Acts in a row: the second one is run on the workbench that the first one left, and not at all if
    the first one is refused. -/
theorem perform_bind (w : Workbench) (act : Act α) (next : α → Act β) :
    w.perform (act >>= next) = match w.perform act with
      | (.ok a, w') => w'.perform (next a)
      | (.error e, w') => (.error e, w') := by
  unfold Workbench.perform
  rw [run_bind_state]
  rcases (ExceptT.run act).run w with ⟨_ | _, _⟩ <;> rfl

@[simp] theorem perform_get (w : Workbench) : w.perform (get : Act Workbench) = (.ok w, w) := rfl

/-! ### Acts that only read -/

theorem reads_pure (a : α) : (pure a : Act α).Reads := fun _ => rfl

theorem reads_throw (e : Refusal) : (throw e : Act α).Reads := fun _ => rfl

theorem reads_get : (get : Act Workbench).Reads := fun _ => rfl

/-- After an act that only reads, the next one starts from the same workbench. -/
theorem Reads.perform_bind {act : Act α} (h : act.Reads) (w : Workbench) (next : α → Act β) :
    w.perform (act >>= next) = match (w.perform act).1 with
      | .ok a => w.perform (next a)
      | .error e => (.error e, w) := by
  have hw := h w
  rw [Act.perform_bind]
  rcases hrun : w.perform act with ⟨e | a, w'⟩
  · rw [hrun] at hw
    rw [show w' = w from hw]
  · rw [hrun] at hw
    rw [show w' = w from hw]

theorem Reads.bind {act : Act α} (h : act.Reads) {next : α → Act β}
    (hnext : ∀ a, (next a).Reads) : (act >>= next).Reads := by
  intro w
  rw [h.perform_bind]
  cases (w.perform act).1 with
  | error e => rfl
  | ok a => exact hnext a w

/-- What is fetched is what the register holds. -/
theorem perform_fetch (w : Workbench) (kind : RegisterKind) (registers : Workbench → Registers α)
    (name : String) :
    w.perform (fetch kind registers name) = match (registers w).get? name with
      | some a => (.ok a, w)
      | none => (.error (.noSuchRegister kind name), w) := by
  unfold fetch
  rw [perform_bind, perform_get]
  dsimp only
  cases (registers w).get? name <;> rfl

/-- Looking a register up changes nothing, whether it is found or not. -/
theorem reads_fetch (kind : RegisterKind) (registers : Workbench → Registers α) (name : String) :
    (fetch kind registers name).Reads := by
  intro w
  rw [perform_fetch]
  cases (registers w).get? name <;> rfl

theorem reads_lift (r : Except Error α) : (lift r).Reads := by
  cases r with
  | ok a => exact reads_pure a
  | error e => exact reads_throw _

/-- Looking several registers up changes nothing, however far it gets before one of them is
    missing. -/
theorem reads_mapM {f : α → Act β} (hf : ∀ a, (f a).Reads) (xs : List α) : (xs.mapM f).Reads := by
  induction xs with
  | nil => exact reads_pure []
  | cons x xs ih =>
    rw [List.mapM_cons]
    exact (hf x).bind fun _ => ih.bind fun _ => reads_pure _

theorem reads_mapOption {f : α → Act β} (hf : ∀ a, (f a).Reads) (x : Option α) :
    (x.mapM f).Reads := by
  cases x with
  | none => exact reads_pure none
  | some a => exact (hf a).bind fun _ => reads_pure _

theorem reads_solution (name : String) : (solution name).Reads :=
  (reads_fetch _ _ _).bind fun _ => reads_pure _

/-- The operands of a term are looked up before anything is done with them, and computing its value
    changes no register. -/
theorem reads_value (t : Workbench.Term) : (value t).Reads := by
  induction t with
  | constant v => exact reads_pure _
  | integer n => exact reads_pure _
  | pointIn register => exact (reads_fetch _ _ _).bind fun _ => reads_pure _
  | exprIn register => exact reads_fetch _ _ _
  | pointAt register offsets =>
    exact (reads_fetch _ _ _).bind fun _ => (reads_lift _).bind fun _ => reads_pure _
  | binary op lhs rhs ihl ihr => exact ihl.bind fun _ => ihr.bind fun _ => reads_pure _

theorem reads_target (t : Workbench.Term) : (target t).Reads := by
  refine (reads_value t).bind fun e => ?_
  cases e with
  | point p => exact reads_pure p
  | const | binary => exact reads_throw _

/-! ### Acts that change nothing when refused -/

theorem certain_pure (a : α) : (pure a : Act α).Certain := fun _ => ⟨a, rfl⟩

theorem certain_modify (f : Workbench → Workbench) : (modify f : Act PUnit).Certain :=
  fun _ => ⟨⟨⟩, rfl⟩

theorem certain_openSink (room : Option Nat) : (openSink room).Certain := fun _ => ⟨_, rfl⟩

/-- Acts that cannot be refused, one after the other, cannot be refused. -/
theorem Certain.bind {act : Act α} (h : act.Certain) {next : α → Act β}
    (hnext : ∀ a, (next a).Certain) : (act >>= next).Certain := by
  intro w
  obtain ⟨a, ha⟩ := h w
  rw [perform_bind]
  rcases hrun : w.perform act with ⟨e | a', w'⟩
  · rw [hrun] at ha
    cases ha
  · exact hnext a' w'

/-- An act that is never refused is atomic, because there is no refusal to account for. -/
theorem Certain.atomic {act : Act α} (h : act.Certain) : act.Atomic := by
  intro w e he
  obtain ⟨a, ha⟩ := h w
  rw [ha] at he
  cases he

/-- What only looks things up can come before any atomic act. -/
theorem Reads.then {act : Act α} (h : act.Reads) {next : α → Act β}
    (hnext : ∀ a, (next a).Atomic) : (act >>= next).Atomic := by
  intro w e he
  rw [h.perform_bind] at he ⊢
  cases hrun : (w.perform act).1 with
  | error e' => rfl
  | ok a =>
    rw [hrun] at he
    exact hnext a w e he

/-- What is certain can come after any atomic act: once the act is accepted, nothing can go wrong
    any more. -/
theorem Atomic.then {act : Act α} (h : act.Atomic) {next : α → Act β}
    (hnext : ∀ a, (next a).Certain) : (act >>= next).Atomic := by
  intro w e he
  have hw := h w
  rw [perform_bind] at he ⊢
  rcases hrun : w.perform act with ⟨e' | a, w'⟩
  · rw [hrun] at hw
    exact hw e' rfl
  · rw [hrun] at he
    obtain ⟨b, hb⟩ := hnext a w'
    rw [hb] at he
    cases he

/-- A write is all or nothing: a sink that has no room left is as it was before. -/
theorem atomic_write (id : SinkId) (text : String) : (write id text).Atomic :=
  reads_get.then fun _ => (reads_lift _).then fun _ => (certain_modify _).atomic

/-- **What an edit of a solution does to the workbench**: what its call does to the draft. -/
theorem perform_edit {w : Workbench} {name : String} {d : Desk}
    (hd : w.solutions.get? name = some d) (call : Edit α) :
    w.perform (edit name call)
      = (((w.draft d).run call).1.mapError .model, w.putDraft name d ((w.draft d).run call).2) := by
  have hdesk : w.perform (desk name) = (.ok d, w) := by
    unfold desk
    rw [perform_fetch, hd]
  unfold edit
  rw [perform_bind, hdesk]
  dsimp only
  rw [perform_bind, perform_get]
  dsimp only
  show (w.putDraft name d ((w.draft d).run call).2).perform (lift ((w.draft d).run call).1) = _
  rcases ((w.draft d).run call) with ⟨e | a, draft⟩ <;> rfl

/-- An edit of a solution that is not there makes no call at all. -/
theorem perform_edit_none {w : Workbench} {name : String} (h : w.solutions.get? name = none)
    (call : Edit α) :
    w.perform (edit name call) = (.error (.noSuchRegister .solution name), w) := by
  have hdesk : w.perform (desk name) = (.error (.noSuchRegister .solution name), w) := by
    unfold desk
    rw [perform_fetch, h]
  unfold edit
  rw [perform_bind, hdesk]

/-- An edit changes nothing if it is refused, if its call is like that. -/
theorem atomic_edit {call : Edit α} (name : String)
    (hcall : ∀ d e d', Draft.run d call = (.error e, d') → d' = d) : (edit name call).Atomic := by
  intro w e he
  cases hd : w.solutions.get? name with
  | none => rw [perform_edit_none hd]
  | some d =>
    rw [perform_edit hd] at he ⊢
    rcases hrun : (w.draft d).run call with ⟨e' | a, draft⟩
    · rw [hcall _ _ _ hrun]
      exact Workbench.putDraft_draft hd
    · rw [hrun] at he
      cases he

end Act

/-! ## Refused steps -/

namespace Workbench

open Act

/-- The step renders a solution. -/
def Step.isFormat : Step → Bool
  | .format _ _ _ _ => true
  | _ => false

/-- **A step changes nothing if it is refused**, unless it renders. -/
theorem atomic_ofStep {s : Step} (hs : s.isFormat = false) : (ofStep s).Atomic := by
  cases s with
  -- each step is matched with the shape of its definition: what it reads, its call, what is certain
  | dim | solution | registry =>
    exact ((certain_modify _).bind fun _ => certain_pure _).atomic
  | sameDim | sameGrid | sameEquation =>
    exact (reads_fetch _ _ _).then fun _ => (reads_fetch _ _ _).then fun _ =>
      (certain_pure _).atomic
  | grid =>
    exact (reads_mapM (fun _ => reads_fetch _ _ _) _).then fun _ => (reads_lift _).then fun _ =>
      ((certain_modify _).bind fun _ => certain_pure _).atomic
  | point =>
    exact (reads_fetch _ _ _).then fun _ => (reads_lift _).then fun _ =>
      ((certain_modify _).bind fun _ => certain_pure _).atomic
  | offsetOf => exact (reads_fetch _ _ _).then fun _ => (certain_pure _).atomic
  | expr =>
    exact (reads_value _).then fun _ =>
      ((certain_modify _).bind fun _ => certain_pure _).atomic
  | walk | evaluate => exact (reads_value _).then fun _ => (certain_pure _).atomic
  | sameExpr =>
    exact (reads_value _).then fun _ => (reads_value _).then fun _ => (certain_pure _).atomic
  | equation =>
    exact (reads_target _).then fun _ => (reads_value _).then fun _ => (reads_lift _).then fun _ =>
      ((certain_modify _).bind fun _ => certain_pure _).atomic
  | declareGrid solution name dims into =>
    refine (reads_mapM (fun _ => reads_fetch _ _ _) _).then fun ds => Atomic.then ?_ fun _ =>
      (certain_modify _).bind fun _ => certain_pure _
    exact atomic_edit solution fun d e d' h => (Draft.declareGrid_refused h).1
  | findGrid register name into =>
    refine (reads_solution _).then fun s => ?_
    cases s.grid? name with
    | some g => exact ((certain_modify _).bind fun _ => certain_pure _).atomic
    | none => exact (certain_pure _).atomic
  | addEquation solution register =>
    refine (reads_fetch _ _ _).then fun e => Atomic.then ?_ fun _ => certain_pure _
    exact atomic_edit solution fun d e d' h => (Draft.addEquation_refused h).1
  | equate solution lhs rhs =>
    refine (reads_target _).then fun l => (reads_value _).then fun r => Atomic.then ?_ fun _ =>
      certain_pure _
    exact atomic_edit solution fun d e d' h => (Draft.equate_refused h).1
  | getEquation | lower =>
    exact (reads_solution _).then fun _ => (reads_lift _).then fun _ => (certain_pure _).atomic
  | setElementBytes solution bytes =>
    refine Atomic.then ?_ fun _ => certain_pure _
    exact atomic_edit solution fun d e d' h => (Draft.setElementBytes_refused h).1
  | setLog =>
    exact (reads_mapOption (fun _ => reads_fetch _ _ _) _).then fun _ =>
      (reads_fetch _ _ _).then fun _ => ((certain_modify _).bind fun _ => certain_pure _).atomic
  | state | manifest => exact (reads_solution _).then fun _ => (certain_pure _).atomic
  | openOutput =>
    exact ((certain_openSink _).bind fun _ => (certain_modify _).bind fun _ =>
      certain_pure _).atomic
  | cloneOutput | discard =>
    exact (reads_fetch _ _ _).then fun _ =>
      ((certain_modify _).bind fun _ => certain_pure _).atomic
  | write =>
    exact (reads_fetch _ _ _).then fun _ => (atomic_write _ _).then fun _ => certain_pure _
  | read =>
    exact (reads_fetch _ _ _).then fun _ => reads_get.then fun _ => (certain_pure _).atomic
  | register =>
    exact (reads_fetch _ _ _).then fun _ => (reads_lift _).then fun _ =>
      ((certain_modify _).bind fun _ => certain_pure _).atomic
  | lookup =>
    exact (reads_fetch _ _ _).then fun _ => (reads_lift _).then fun _ => (certain_pure _).atomic
  | format => cases hs

/-- **A refused step leaves the workbench as it was**, unless it renders. -/
theorem step_refused {w : Workbench} {s : Step} {e : Refusal} (hs : s.isFormat = false)
    (h : (w.step s).1 = .error e) : (w.step s).2 = w :=
  atomic_ofStep hs w e h

/-! ## Steps that edit -/

/-- The register of the solution that a step edits. -/
def Step.edits? : Step → Option String
  | .declareGrid r _ _ _ | .addEquation r _ | .equate r _ _ | .setElementBytes r _ => some r
  | _ => none

/-- The call that a step makes on a draft, once its operands have been fetched. -/
def call? (w : Workbench) : Step → Option Call
  | .declareGrid _ name dims _ =>
    (w.perform (dims.mapM Act.dim)).1.toOption.map (.declareGrid name)
  | .addEquation _ register => (w.equations.get? register).map .addEquation
  | .equate _ lhs rhs =>
    (w.perform (target lhs)).1.toOption.bind fun l =>
      (w.perform (value rhs)).1.toOption.map (.equate l)
  | .setElementBytes _ bytes => some (.setElementBytes bytes)
  | _ => none

/-- The calls that steps make on a draft are edits; a step that renders or sends the record
    elsewhere makes none of them. -/
theorem isEdit_of_call? {w : Workbench} {s : Step} {c : Call} (h : w.call? s = some c) :
    c.isEdit = true := by
  cases s with
  | declareGrid | addEquation =>
    obtain ⟨_, _, rfl⟩ := Option.map_eq_some_iff.mp h
    rfl
  | equate =>
    obtain ⟨_, _, h⟩ := Option.bind_eq_some_iff.mp h
    obtain ⟨_, _, rfl⟩ := Option.map_eq_some_iff.mp h
    rfl
  | setElementBytes =>
    obtain rfl := Option.some.inj h
    rfl
  | _ => cases h

/-- The step made the call on the draft in a register: it was accepted if the call was, and left the
    workbench with the draft that the call left. Besides, it may have put a grid into a register. -/
structure Edited (w : Workbench) (name : String) (d : Desk) (c : Call)
    (outcome : Except Refusal Reply × Workbench) : Prop where
  reply : outcome.1.isOk = ((w.draft d).perform c).1.isOk
  bench : { outcome.2 with grids := w.grids } = w.putDraft name d ((w.draft d).perform c).2

/-- An edit makes its call, and what follows it puts a grid into a register at most. -/
theorem edited_edit {α : Type} {w : Workbench} {name : String} {d : Desk}
    (hd : w.solutions.get? name = some d) {call : Edit α} {c : Call}
    (hcall : ∀ d : Draft, (d.perform c).1.isOk = (d.run call).1.isOk ∧ (d.perform c).2 = (d.run call).2)
    {next : α → Act Reply}
    (hnext : ∀ (a : α) (w : Workbench), ∃ reply grids,
      w.perform (next a) = (.ok reply, { w with grids := grids })) :
    Edited w name d c (w.perform (edit name call >>= next)) := by
  obtain ⟨hreply, hdraft⟩ := hcall (w.draft d)
  have hgrids : ∀ draft, (w.putDraft name d draft).grids = w.grids := by
    intro draft
    unfold putDraft putLog
    rcases d.log with _ | id <;> rcases draft.log with _ | s <;> rfl
  rw [perform_bind, perform_edit hd]
  -- the draft is put back in either case, and what comes after an accepted call touches grids only
  rcases hrun : (w.draft d).run call with ⟨e | a, draft⟩
  · rw [hrun] at hreply hdraft
    refine ⟨hreply.symm, ?_⟩
    rw [hdraft]
    show { w.putDraft name d draft with grids := w.grids } = _
    rw [← hgrids draft]
  · rw [hrun] at hreply hdraft
    obtain ⟨reply, grids, hperform⟩ := hnext a (w.putDraft name d draft)
    show Edited w name d c ((w.putDraft name d draft).perform (next a))
    rw [hperform]
    refine ⟨hreply.symm, ?_⟩
    rw [hdraft]
    show { w.putDraft name d draft with grids := w.grids } = _
    rw [← hgrids draft]

/-- **A step that edits a solution makes its call on the draft**, or it makes none and is refused,
    because of an operand that cannot be fetched. -/
theorem step_edits {w : Workbench} {s : Step} {name : String} {d : Desk}
    (hs : s.edits? = some name) (hd : w.solutions.get? name = some d) :
    (w.call? s = none ∧ ∃ e, w.step s = (.error e, w))
      ∨ ∃ c, w.call? s = some c ∧ Edited w name d c (w.step s) := by
  cases s with
  | declareGrid r title dims into =>
    obtain rfl : r = name := Option.some.inj hs
    have hreads : (dims.mapM Act.dim).Reads := reads_mapM (fun _ => reads_fetch _ _ _) dims
    rw [step, ofStep, hreads.perform_bind, call?]
    cases (w.perform (dims.mapM Act.dim)).1 with
    | error e => exact Or.inl ⟨rfl, e, rfl⟩
    | ok ds =>
      refine Or.inr ⟨_, rfl, edited_edit hd (fun d => ?_) fun g w => ⟨_, _, rfl⟩⟩
      rw [Draft.perform_declareGrid]
      refine ⟨?_, rfl⟩
      show Except.isOk (Except.map _ (d.declareGrid title ds).1) = (d.declareGrid title ds).1.isOk
      rcases (d.declareGrid title ds).1 with _ | _ <;> rfl
  | addEquation r register =>
    obtain rfl : r = name := Option.some.inj hs
    rw [step, ofStep, perform_bind, Act.equation, perform_fetch, call?]
    cases w.equations.get? register with
    | none => exact Or.inl ⟨rfl, _, rfl⟩
    | some e =>
      exact Or.inr ⟨_, rfl, edited_edit hd (fun d => ⟨rfl, rfl⟩) fun _ w => ⟨_, w.grids, rfl⟩⟩
  | equate r lhs rhs =>
    obtain rfl : r = name := Option.some.inj hs
    rw [step, ofStep, (reads_target lhs).perform_bind, call?]
    cases (w.perform (target lhs)).1 with
    | error e => exact Or.inl ⟨rfl, e, rfl⟩
    | ok l =>
      dsimp only
      rw [(reads_value rhs).perform_bind]
      cases (w.perform (value rhs)).1 with
      | error e => exact Or.inl ⟨rfl, e, rfl⟩
      | ok rhs =>
        refine Or.inr ⟨_, rfl, edited_edit hd (fun d => ?_) fun _ w => ⟨_, w.grids, rfl⟩⟩
        rw [Draft.perform_equate]
        refine ⟨?_, rfl⟩
        show Except.isOk (Except.map _ (d.equate l rhs).1) = (d.equate l rhs).1.isOk
        rcases (d.equate l rhs).1 with _ | _ <;> rfl
  | setElementBytes r bytes =>
    obtain rfl : r = name := Option.some.inj hs
    exact Or.inr ⟨_, rfl, edited_edit hd (fun d => ⟨rfl, rfl⟩) fun _ w => ⟨_, w.grids, rfl⟩⟩
  | _ => cases hs

end Workbench

/-! ## Everything on a workbench comes from sessions -/

/-- The solution is one that a session leaves. -/
def Solution.Reachable (s : Solution) : Prop :=
  ∃ name log calls, s = ((Draft.new name log).after calls).solution

/-- A call leads from what sessions leave to what sessions leave, whatever its record is. -/
theorem Draft.reachable_perform {d : Draft} (h : d.solution.Reachable) (c : Call) :
    (d.perform c).2.solution.Reachable := by
  obtain ⟨name, log, calls, hs⟩ := h
  -- a session can change where it is recorded before it goes on
  have hd : (Draft.new name log).after (calls ++ [.setLog d.log]) = d := by
    rw [after, List.foldl_append]
    show (⟨((Draft.new name log).after calls).solution, d.log⟩ : Draft) = d
    rw [← hs]
  refine ⟨name, log, (calls ++ [.setLog d.log]) ++ [c], ?_⟩
  rw [after, List.foldl_append]
  show _ = (((Draft.new name log).after (calls ++ [.setLog d.log])).perform c).2.solution
  rw [hd]

namespace Workbench

open Act

/-- **The workbench is in order**: registers and records stand for sinks that it holds, and its
    solutions are ones that sessions leave. -/
structure Sound (w : Workbench) : Prop where
  outputs : ∀ name id, w.outputs.get? name = some id → id.index < w.sinks.length
  logs : ∀ name d, w.solutions.get? name = some d → ∀ id ∈ d.log, id.index < w.sinks.length
  sessions : ∀ name d, w.solutions.get? name = some d → d.solution.Reachable

/-- An empty workbench is sound, with no register that could name a sink that is missing. -/
theorem sound_empty : empty.Sound where
  outputs := fun _ _ h => by cases h
  logs := fun _ _ h => by cases h
  sessions := fun _ _ h => by cases h

section Changes

variable {w : Workbench} (h : w.Sound)

include h

theorem Sound.setSink (id : SinkId) (s : Sink) : (w.setSink id s).Sound := by
  have hlength : (w.setSink id s).sinks.length = w.sinks.length := List.length_set
  refine ⟨fun name id hid => ?_, fun name d hd id hid => ?_, h.sessions⟩
  · rw [hlength]
    exact h.outputs name id hid
  · rw [hlength]
    exact h.logs name d hd id hid

/-- A solution can be put into a register if its record goes to a sink that exists and a session
    leaves it. -/
theorem Sound.setSolution (name : String) {d : Desk} (hlog : ∀ id ∈ d.log, id.index < w.sinks.length)
    (hsession : d.solution.Reachable) :
    Sound { w with solutions := w.solutions.set name d } := by
  refine ⟨h.outputs, fun name' d' hd' => ?_, fun name' d' hd' => ?_⟩
  · rw [Registers.get?_set] at hd'
    split_ifs at hd'
    · obtain rfl := Option.some.inj hd'
      exact hlog
    · exact h.logs name' d' hd'
  · rw [Registers.get?_set] at hd'
    split_ifs at hd'
    · obtain rfl := Option.some.inj hd'
      exact hsession
    · exact h.sessions name' d' hd'

theorem Sound.setOutput (name : String) {id : SinkId} (hid : id.index < w.sinks.length) :
    Sound { w with outputs := w.outputs.set name id } := by
  refine ⟨fun name' id' hid' => ?_, h.logs, h.sessions⟩
  rw [Registers.get?_set] at hid'
  split_ifs at hid'
  · obtain rfl := Option.some.inj hid'
    exact hid
  · exact h.outputs name' id' hid'

/-- What a call leaves can be put back: it is recorded where the solution was recorded before. -/
theorem Sound.putDraft {name : String} {d : Desk} (hd : w.solutions.get? name = some d)
    {draft : Draft} (hsession : draft.solution.Reachable) : (w.putDraft name d draft).Sound := by
  have hlog : (w.putLog d draft).Sound ∧ (w.putLog d draft).sinks.length = w.sinks.length := by
    unfold putLog
    split
    · exact ⟨h.setSink _ _, List.length_set⟩
    · exact ⟨h, rfl⟩
  refine hlog.1.setSolution name ?_ hsession
  intro id hid
  rw [hlog.2]
  exact h.logs name d hd id hid

/-- A new sink comes last, so that the numbers of all others still name what they named. -/
theorem Sound.openSink (room : Option Nat) :
    Sound { w with sinks := w.sinks ++ [.empty room] } := by
  have hlength : (w.sinks ++ [Sink.empty room]).length = w.sinks.length + 1 := List.length_append
  refine ⟨fun name id hid => ?_, fun name d hd id hid => ?_, h.sessions⟩
  · have := h.outputs name id hid
    show id.index < (w.sinks ++ [Sink.empty room]).length
    omega
  · have := h.logs name d hd id hid
    show id.index < (w.sinks ++ [Sink.empty room]).length
    omega

end Changes

/-! ### Every step keeps the workbench in order -/

/-- The act leaves a workbench in order that was in order. -/
def Keeps {α : Type} (act : Act α) : Prop := ∀ w : Workbench, w.Sound → (w.perform act).2.Sound

section Keeps

variable {α β : Type}

/-- An act that reads keeps the workbench sound, since it keeps it as it is. -/
theorem keeps_of_reads {act : Act α} (h : act.Reads) : Keeps act := by
  intro w hw
  rw [h w]
  exact hw

theorem keeps_modify {f : Workbench → Workbench} (h : ∀ w, w.Sound → (f w).Sound) :
    Keeps (modify f : Act PUnit) := h

/-- Acts in a row keep the workbench sound if each of them does, also if one of them is refused. -/
theorem Keeps.bind {act : Act α} (h : Keeps act) {next : α → Act β} (hnext : ∀ a, Keeps (next a)) :
    Keeps (act >>= next) := by
  intro w hw
  have hafter := h w hw
  rw [perform_bind]
  rcases hrun : w.perform act with ⟨e | a, w'⟩
  · rw [hrun] at hafter
    exact hafter
  · rw [hrun] at hafter
    exact hnext a w' hafter

/-- What is read first may matter to what comes next. -/
theorem Keeps.after {act : Act α} (h : act.Reads) {next : α → Act β}
    (hnext : ∀ (w : Workbench) (a : α), w.Sound → (w.perform act).1 = .ok a →
      (w.perform (next a)).2.Sound) : Keeps (act >>= next) := by
  intro w hw
  rw [h.perform_bind]
  cases hrun : (w.perform act).1 with
  | error e => exact hw
  | ok a => exact hnext w a hw hrun

theorem get?_of_fetch {w : Workbench} {kind : RegisterKind} {registers : Workbench → Registers α}
    {name : String} {a : α} (h : (w.perform (fetch kind registers name)).1 = .ok a) :
    (registers w).get? name = some a := by
  rw [perform_fetch] at h
  cases hget : (registers w).get? name with
  | none =>
    rw [hget] at h
    cases h
  | some a' =>
    rw [hget] at h
    rw [Except.ok.inj h]

/-- An edit keeps the workbench sound if its call leads from solutions of sessions to solutions of
    sessions. -/
theorem keeps_edit {call : Edit α} (name : String)
    (hcall : ∀ d : Draft, d.solution.Reachable → (d.run call).2.solution.Reachable) :
    Keeps (edit name call) := by
  intro w hw
  cases hd : w.solutions.get? name with
  | none =>
    rw [perform_edit_none hd]
    exact hw
  | some d =>
    rw [perform_edit hd]
    exact hw.putDraft hd (hcall _ (hw.sessions name d hd))

theorem keeps_write (id : SinkId) (text : String) : Keeps (write id text) :=
  (keeps_of_reads reads_get).bind fun _ => (keeps_of_reads (reads_lift _)).bind fun s =>
    keeps_modify fun _ hw => hw.setSink id s

/-- A register that is named, if one is, stands for a sink that the workbench holds. -/
theorem inRange_of_mapM {w : Workbench} (hw : w.Sound) {register : Option String}
    {log : Option SinkId} (h : (w.perform (register.mapM output)).1 = .ok log) :
    ∀ id ∈ log, id.index < w.sinks.length := by
  cases register with
  | none =>
    obtain rfl : none = log := Except.ok.inj h
    exact fun id hid => by cases hid
  | some name =>
    have hbind : w.perform ((some name).mapM output)
        = w.perform (output name >>= fun id => pure (some id)) := rfl
    have hreads : (output name).Reads := reads_fetch _ _ _
    rw [hbind, hreads.perform_bind] at h
    cases hrun : (w.perform (output name)).1 with
    | error e =>
      rw [hrun] at h
      cases h
    | ok id =>
      rw [hrun] at h
      obtain rfl : some id = log := Except.ok.inj h
      intro id' hid'
      obtain rfl := Option.some.inj hid'
      exact hw.outputs name id (get?_of_fetch hrun)

end Keeps

/-- **Every step keeps the workbench in order**, refused or not. -/
theorem keeps_ofStep (s : Step) : Keeps (ofStep s) := by
  have hpure : ∀ reply : Reply, Keeps (pure reply : Act Reply) := fun _ =>
    keeps_of_reads (reads_pure _)
  -- most steps change registers of other kinds only
  have hsame : ∀ {f : Workbench → Workbench} {reply : Reply}, (∀ w, w.Sound → (f w).Sound) →
      Keeps (modify f >>= fun _ => pure reply : Act Reply) :=
    fun hf => (keeps_modify hf).bind fun _ => hpure _
  cases s with
  | dim | registry => exact hsame fun w hw => ⟨hw.outputs, hw.logs, hw.sessions⟩
  | solution into name =>
    refine hsame fun w hw => hw.setSolution into (fun id hid => by cases hid) ?_
    exact ⟨name, none, [], rfl⟩
  | sameDim | sameGrid | sameEquation =>
    exact keeps_of_reads ((reads_fetch _ _ _).bind fun _ => (reads_fetch _ _ _).bind fun _ =>
      reads_pure _)
  | grid =>
    exact (keeps_of_reads (reads_mapM (fun _ => reads_fetch _ _ _) _)).bind fun _ =>
      (keeps_of_reads (reads_lift _)).bind fun _ =>
        hsame fun w hw => ⟨hw.outputs, hw.logs, hw.sessions⟩
  | point | register =>
    exact (keeps_of_reads (reads_fetch _ _ _)).bind fun _ =>
      (keeps_of_reads (reads_lift _)).bind fun _ =>
        hsame fun w hw => ⟨hw.outputs, hw.logs, hw.sessions⟩
  | offsetOf => exact keeps_of_reads ((reads_fetch _ _ _).bind fun _ => reads_pure _)
  | expr =>
    exact (keeps_of_reads (reads_value _)).bind fun _ =>
      hsame fun w hw => ⟨hw.outputs, hw.logs, hw.sessions⟩
  | walk | evaluate => exact keeps_of_reads ((reads_value _).bind fun _ => reads_pure _)
  | sameExpr =>
    exact keeps_of_reads ((reads_value _).bind fun _ => (reads_value _).bind fun _ => reads_pure _)
  | equation =>
    exact (keeps_of_reads (reads_target _)).bind fun _ => (keeps_of_reads (reads_value _)).bind
      fun _ => (keeps_of_reads (reads_lift _)).bind fun _ =>
        hsame fun w hw => ⟨hw.outputs, hw.logs, hw.sessions⟩
  | declareGrid r name dims into =>
    refine (keeps_of_reads (reads_mapM (fun _ => reads_fetch _ _ _) _)).bind fun ds =>
      Keeps.bind (keeps_edit r fun d hd => ?_) fun _ =>
        hsame fun w hw => ⟨hw.outputs, hw.logs, hw.sessions⟩
    have hcall := d.reachable_perform hd (.declareGrid name ds)
    rwa [Draft.perform_declareGrid] at hcall
  | findGrid r name into =>
    refine (keeps_of_reads (reads_solution _)).bind fun s => ?_
    cases s.grid? name with
    | some g => exact hsame fun w hw => ⟨hw.outputs, hw.logs, hw.sessions⟩
    | none => exact hpure _
  | addEquation r register =>
    exact (keeps_of_reads (reads_fetch _ _ _)).bind fun e =>
      Keeps.bind (keeps_edit r fun d hd => d.reachable_perform hd (.addEquation e)) fun _ => hpure _
  | equate r lhs rhs =>
    refine (keeps_of_reads (reads_target _)).bind fun l => (keeps_of_reads (reads_value _)).bind
      fun rhs => Keeps.bind (keeps_edit r fun d hd => ?_) fun _ => hpure _
    have hcall := d.reachable_perform hd (.equate l rhs)
    rwa [Draft.perform_equate] at hcall
  | getEquation | lower =>
    exact keeps_of_reads ((reads_solution _).bind fun _ => (reads_lift _).bind fun _ =>
      reads_pure _)
  | setElementBytes r bytes =>
    exact Keeps.bind (keeps_edit r fun d hd => d.reachable_perform hd (.setElementBytes bytes))
      fun _ => hpure _
  | setLog r register =>
    refine Keeps.after (reads_mapOption (fun _ => reads_fetch _ _ _) _) fun w log hw hlog => ?_
    have hreads : (desk r).Reads := reads_fetch _ _ _
    rw [hreads.perform_bind]
    cases hdesk : (w.perform (desk r)).1 with
    | error e => exact hw
    | ok d =>
      exact hw.setSolution r (inRange_of_mapM hw hlog) (hw.sessions r d (get?_of_fetch hdesk))
  | state | manifest => exact keeps_of_reads ((reads_solution _).bind fun _ => reads_pure _)
  | openOutput into room =>
    intro w hw
    have hopen := hw.openSink room
    exact hopen.setOutput into (by simp)
  | cloneOutput into register =>
    refine Keeps.after (reads_fetch _ _ _) fun w id hw hid => ?_
    exact hw.setOutput into (hw.outputs register id (get?_of_fetch hid))
  | write =>
    exact (keeps_of_reads (reads_fetch _ _ _)).bind fun _ => (keeps_write _ _).bind fun _ => hpure _
  | read =>
    exact keeps_of_reads ((reads_fetch _ _ _).bind fun _ => reads_get.bind fun _ => reads_pure _)
  | discard =>
    exact (keeps_of_reads (reads_fetch _ _ _)).bind fun _ => hsame fun w hw => hw.setSink _ _
  | lookup =>
    exact keeps_of_reads ((reads_fetch _ _ _).bind fun _ => (reads_lift _).bind fun _ =>
      reads_pure _)
  | format r id into formats =>
    refine (keeps_of_reads (reads_fetch _ _ _)).bind fun _ =>
      (keeps_of_reads (reads_mapOption (fun _ => reads_fetch _ _ _) _)).bind fun out =>
        (keeps_of_reads (reads_mapOption (fun _ => reads_fetch _ _ _) _)).bind fun registry => ?_
    refine Keeps.bind (keeps_edit r fun d hd => ?_) fun text => ?_
    · show (d.render _ id).2.solution.Reachable
      rw [Draft.render_solution]
      exact hd
    · cases out with
      | none => exact hpure _
      | some sink =>
        exact (keeps_write _ _).bind fun _ => (keeps_of_reads reads_get).bind fun _ => hpure _

/-! ### Scripts -/

/-- The workbench after a script. -/
def after (w : Workbench) (script : List Step) : Workbench :=
  script.foldl (fun w s => (w.step s).2) w

/-- Each step of a script is answered from the workbench that the steps before it leave. -/
theorem run_append (before : List Step) (s : Step) (later : List Step) : ∀ w : Workbench,
    w.run (before ++ s :: later)
      = w.run before ++ ((w.after before).step s).1 :: (w.after (before ++ [s])).run later := by
  induction before with
  | nil =>
    intro w
    rfl
  | cons s' before ih =>
    intro w
    show (w.step s').1 :: (w.step s').2.run (before ++ s :: later) = _
    rw [ih]
    rfl

/-- **After any script the workbench is sound**, as every step keeps it so. -/
theorem Sound.after (script : List Step) : ∀ {w : Workbench}, w.Sound → (w.after script).Sound := by
  induction script with
  | nil =>
    intro w hw
    exact hw
  | cons s script ih =>
    intro w hw
    exact ih (keeps_ofStep s w hw)

/-- **Every solution that a script builds is one that a session leaves.** -/
theorem exists_session (script : List Step) {name : String} {d : Desk}
    (hd : (empty.after script).solutions.get? name = some d) : d.solution.Reachable :=
  (sound_empty.after script).sessions name d hd

/-! ### Scripts of edits are sessions -/

/-- What is put back into a register is what is found there. -/
theorem draft_putDraft {w : Workbench} (hw : w.Sound) {name : String} {d : Desk}
    (hd : w.solutions.get? name = some d) {draft : Draft}
    (hlog : draft.log.isSome = d.log.isSome) :
    (w.putDraft name d draft).solutions.get? name = some ⟨draft.solution, d.log⟩
      ∧ (w.putDraft name d draft).draft ⟨draft.solution, d.log⟩ = draft := by
  constructor
  · unfold putDraft
    rw [Registers.get?_set, if_pos rfl]
  · obtain ⟨solution, log⟩ := draft
    unfold putDraft putLog Workbench.draft
    cases hdesk : d.log with
    | none =>
      rw [hdesk] at hlog
      cases log with
      | none => rfl
      | some s => cases hlog
    | some id =>
      rw [hdesk] at hlog
      cases log with
      | none => cases hlog
      | some s =>
        have hid : id.index < w.sinks.length := hw.logs name d hd id hdesk
        simp [sink, setSink, hid]

/-- An edit keeps whether the draft has a record. -/
theorem isSome_log_perform (draft : Draft) {c : Call} (hc : c.isEdit = true) :
    (draft.perform c).2.log.isSome = draft.log.isSome := by
  rcases draft.perform_edit hc with ⟨e, hrefused⟩ | ⟨draft', hok, hrecords⟩
  · rw [hrefused]
  · rw [hok, hrecords.log, Option.isSome_map]

/-- The calls that the steps of a script make. -/
def calls (w : Workbench) : List Step → List Call
  | [] => []
  | s :: script => (w.call? s).toList ++ (w.step s).2.calls script

/-- The calls of the steps that are not refused. -/
def answered (w : Workbench) : List Step → List Call
  | [] => []
  | s :: script =>
    (if (w.step s).1.isOk then (w.call? s).toList else []) ++ (w.step s).2.answered script

/-- What a script of edits leaves in a register, and in the sink of its record. -/
structure Replays (w : Workbench) (name : String) (d : Desk) (script : List Step) (d' : Desk) :
    Prop where
  desk : (w.after script).solutions.get? name = some d'
  log : d'.log = d.log
  /-- The solution and the record are those of a session. -/
  draft : (w.after script).draft d' = (w.draft d).after (w.calls script)
  /-- The steps that are not refused are those whose calls the session accepts. -/
  accepted : (w.draft d).accepted (w.calls script) = w.answered script

/-- **A script of edits of one solution is a session.** -/
theorem replays_edits {name : String} (script : List Step) : ∀ {w : Workbench} {d : Desk}, w.Sound →
    w.solutions.get? name = some d → (∀ s ∈ script, s.edits? = some name) →
    ∃ d', w.Replays name d script d' := by
  induction script with
  | nil =>
    intro w d _ hd _
    exact ⟨d, hd, rfl, rfl, rfl⟩
  | cons s script ih =>
    intro w d hw hd hedits
    obtain ⟨hs, hrest⟩ := List.forall_mem_cons.mp hedits
    have hsound : (w.step s).2.Sound := keeps_ofStep s w hw
    have hcalls : w.calls (s :: script) = (w.call? s).toList ++ (w.step s).2.calls script := rfl
    have hanswered : w.answered (s :: script)
        = (if (w.step s).1.isOk then (w.call? s).toList else []) ++ (w.step s).2.answered script :=
      rfl
    have hafter : w.after (s :: script) = (w.step s).2.after script := rfl
    rcases step_edits hs hd with ⟨hnone, e, hrefused⟩ | ⟨c, hcall, hedited⟩
    · -- no call is made, and nothing happens
      obtain ⟨d', h⟩ := ih hw hd hrest
      rw [hnone, hrefused] at hcalls hanswered
      rw [hrefused] at hafter
      refine ⟨d', ?_, h.log, ?_, ?_⟩
      · rw [hafter]
        exact h.desk
      · rw [hafter, hcalls]
        exact h.draft
      · rw [hcalls, hanswered]
        exact h.accepted
    · have hlog := isSome_log_perform (w.draft d) (isEdit_of_call? hcall)
      obtain ⟨hget, hdraft⟩ := draft_putDraft hw hd (hlog.trans Option.isSome_map)
      -- the register of a grid has nothing to do with solutions
      rw [← hedited.bench] at hget hdraft
      have hstart : (w.step s).2.draft ⟨((w.draft d).perform c).2.solution, d.log⟩
          = ((w.draft d).perform c).2 := hdraft
      obtain ⟨d', h⟩ := ih hsound hget hrest
      rw [hcall] at hcalls hanswered
      refine ⟨d', h.desk, h.log, ?_, ?_⟩
      · rw [hafter, h.draft, hcalls, hstart]
        rfl
      · have haccepted := h.accepted
        rw [hstart] at haccepted
        rw [hcalls, hanswered, hedited.reply, ← haccepted]
        exact (w.draft d).accepted_cons c _

/-- The calls that a script of edits makes on its draft are edits. -/
theorem isEdit_calls (script : List Step) : ∀ w : Workbench, ∀ c ∈ w.calls script, c.isEdit = true := by
  induction script with
  | nil => exact fun w c hc => absurd hc List.not_mem_nil
  | cons s script ih =>
    intro w c hc
    rcases List.mem_append.mp hc with hc | hc
    · exact isEdit_of_call? (Option.mem_toList.mp hc)
    · exact ih _ c hc

end Workbench

/-! ## Refused edits and the record -/

/-- **Refused edits leave nothing behind, and the record replays the accepted ones.** After any
    session an edit that is refused leaves the draft as it was, its record included. A session of
    edits that is recorded in a text from the start leaves exactly the lines of its accepted edits,
    and there each equation has the number of its place among the solution's equations.

    The same holds of scripts. After any script a step that edits a solution and is refused leaves
    every register and every sink of the workbench as it was. Whatever a script has set up, if a new
    solution is recorded in an empty sink, then a script of edits of it leaves exactly the lines of the
    steps that were not refused in that sink. -/
theorem Draft.refused_kept_and_record_replays (name : String) :
    (∀ (log : Option Sink) (calls : List Call) (c : Call) (e : Error), c.isEdit = true →
      let d := (Draft.new name log).after calls
      (d.perform c).1 = .error e → (d.perform c).2 = d)
    ∧ (∀ calls : List Call, (∀ c ∈ calls, c.isEdit = true) →
      let start := Draft.new name (some (.empty none))
      let d := start.after calls
      d.log = some ⟨unlines (Call.lines 0 (start.accepted calls)), none⟩
        ∧ d.solution.equations.map Equation.sides = (start.accepted calls).filterMap Call.sides?
        ∧ start.after (start.accepted calls) = d)
    ∧ (∀ (script : List Workbench.Step) (s : Workbench.Step) (e : Refusal), s.edits?.isSome = true →
      let w := Workbench.empty.after script
      (w.step s).1 = .error e → (w.step s).2 = w)
    ∧ ∀ (setup script : List Workbench.Step) (register : String) (id : SinkId),
      let w := Workbench.empty.after setup
      let w' := w.after script
      w.solutions.get? register = some ⟨.new name, some id⟩ → w.sink id = .empty none →
      (∀ s ∈ script, s.edits? = some register) →
      ∃ solution, w'.solutions.get? register = some ⟨solution, some id⟩
        ∧ w'.sink id = ⟨unlines (Call.lines 0 (w.answered script)), none⟩
        ∧ solution.equations.map Equation.sides = (w.answered script).filterMap Call.sides?
        ∧ solution.Reachable := by
  refine ⟨fun log calls c e hc hrefused => perform_refused hc hrefused, ?_, ?_, ?_⟩
  · intro calls hedits start d
    have h := replays calls start hedits
    exact ⟨log_after name hedits, h.sides, h.after⟩
  · intro script s e hs w hrefused
    refine Workbench.step_refused ?_ hrefused
    cases s with
    | format => cases hs
    | _ => rfl
  · intro setup script register id w w' hdesk hsink hedits
    have hsound := Workbench.sound_empty.after setup
    -- the script is a session of calls on the draft that the register and its sink make up
    obtain ⟨⟨solution, log⟩, h⟩ := Workbench.replays_edits script hsound hdesk hedits
    obtain rfl : log = some id := h.log
    have hstart : w.draft ⟨.new name, some id⟩ = Draft.new name (some (.empty none)) := by
      rw [← hsink]
      rfl
    have hisEdit := Workbench.isEdit_calls script w
    have hreplays := replays (w.calls script) (Draft.new name (some (.empty none))) hisEdit
    have hdraft := h.draft
    have haccepted := h.accepted
    rw [hstart] at hdraft haccepted
    refine ⟨solution, h.desk, ?_, ?_, (hsound.after script).sessions register _ h.desk⟩
    · have hlog := congrArg Draft.log hdraft
      rw [log_after name hisEdit, haccepted] at hlog
      exact Option.some.inj hlog
    · have hsides := hreplays.sides
      rw [← hdraft, haccepted] at hsides
      exact hsides

/-- Two equations over a grid that is declared once. A second declaration, an equation that is not
    later than what it reads and a width of three bytes are refused in between. -/
def Call.threeRefused : List Call :=
  let w : Grid := ⟨"w", [⟨"k", .step⟩, ⟨"z", .domain⟩], by decide⟩
  let later : Point := ⟨w, [1, 0], by decide⟩
  let now : Point := ⟨w, [0, -1], by decide⟩
  [.declareGrid "w" [⟨"k", .step⟩, ⟨"z", .domain⟩], .declareGrid "w" [⟨"z", .domain⟩],
    .equate later (.const .zero), .equate now (.point now), .setElementBytes 3,
    .equate later (.point now)]

/-- A new solution with a record, two dimensions, and another solution. -/
def Workbench.tideSetup : List Workbench.Step :=
  [.dim "k" "k" .step, .dim "z" "z" .domain, .solution "other" "ebb", .solution "S" "tide",
    .openOutput "o" none, .setLog "S" (some "o")]

/-- A grid that is declared twice, an equation that is not later than what it reads, one that is, and
    a point that cannot be fetched. -/
def Workbench.tideEdits : List Workbench.Step :=
  [.declareGrid "S" "w" ["k", "z"] (some "w"), .declareGrid "S" "w" ["z"] none,
    .equate "S" (.pointAt "w" [0, -1]) (.pointAt "w" [0, 0]),
    .equate "S" (.pointAt "w" [1, 0]) (.constant .zero), .equate "S" (.pointIn "p") (.constant .zero)]

/-- The session of refused and accepted calls, and a script that makes such calls. -/
theorem Draft.refused_kept_and_record_replays_threeRefused :
    (let d := (Draft.new "tide" (some (.empty none))).after Call.threeRefused
    d.log = some ⟨"Grid w(k, z) declared.\nEquation 0: w(k+1, z) EQUALS 0\n"
        ++ "Equation 1: w(k+1, z) EQUALS w(k, z-1)\n", none⟩
      ∧ d.solution.equations.length = 2
      ∧ (d.perform (.setElementBytes 3)).1 = .error (.unsupportedWidth 3)
      ∧ (d.perform (.setElementBytes 3)).2 = d)
    ∧ let w := (Workbench.empty.after Workbench.tideSetup).after Workbench.tideEdits
      (w.sink ⟨0⟩).text = "Grid w(k, z) declared.\nEquation 0: w(k+1, z) EQUALS 0\n"
      ∧ (w.step (.setElementBytes "S" 3)).1.isOk = false
      ∧ (w.step (.setElementBytes "S" 3)).2 = w := by
  obtain ⟨hkept, hreplays, hsteps, hscripts⟩ := refused_kept_and_record_replays "tide"
  constructor
  · intro d
    obtain ⟨hlog, hsides, _⟩ := hreplays Call.threeRefused (by decide)
    have htext : unlines (Call.lines 0
        ((Draft.new "tide" (some (.empty none))).accepted Call.threeRefused))
        = "Grid w(k, z) declared.\nEquation 0: w(k+1, z) EQUALS 0\n"
          ++ "Equation 1: w(k+1, z) EQUALS w(k, z-1)\n" := by
      decide +kernel
    have hcount : (((Draft.new "tide" (some (.empty none))).accepted Call.threeRefused).filterMap
        Call.sides?).length = 2 := by
      decide +kernel
    have hrefused : (d.perform (.setElementBytes 3)).1 = .error (.unsupportedWidth 3) := rfl
    refine ⟨htext ▸ hlog, ?_, hrefused, hkept _ _ _ _ rfl hrefused⟩
    rw [← hcount, ← hsides, List.length_map]
  · intro w
    obtain ⟨s, _, hsink, _⟩ := hscripts Workbench.tideSetup Workbench.tideEdits "S" ⟨0⟩ rfl rfl
      (by decide)
    have htext : unlines (Call.lines 0
        ((Workbench.empty.after Workbench.tideSetup).answered Workbench.tideEdits))
        = "Grid w(k, z) declared.\nEquation 0: w(k+1, z) EQUALS 0\n" := by
      decide +kernel
    have hrefused : (w.step (.setElementBytes "S" 3)).1 = .error (.model (.unsupportedWidth 3)) := rfl
    refine ⟨?_, by rw [hrefused]; rfl, ?_⟩
    · rw [← htext]
      exact congrArg Sink.text hsink
    · have happend : w = Workbench.empty.after (Workbench.tideSetup ++ Workbench.tideEdits) :=
        (List.foldl_append ..).symm
      rw [happend] at hrefused ⊢
      exact hsteps _ _ _ rfl hrefused

end Stencil
