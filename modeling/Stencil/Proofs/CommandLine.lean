import Mathlib
import Stencil.Command.Run
import Stencil.Proofs.Rendering
import Stencil.Proofs.Unrecorded

/-!
# A run is all or nothing

A run of the command line either writes its artifact and exits with 0, or leaves everything but the
file of its record as it was and exits with another code (`run_all_or_nothing`).

What a write does to a tree of files is said once: it changes what stands at one path
(`FileTree.node?_setFile_of_ne`). For this the directories above the path must exist, which is so of
every path that can be written (`FileTree.rooted_of_writable`). A run is then followed from effect
to effect, and each effect changes one path at most (`World.SameBut`).

A run opens its record first, then reads and compiles the text, and writes the artifact last. So
there are three things to follow.

* The record. It is written at every stage, and none of these writes can touch anything else
  (`writeRecord_run`, `openRecord_run`); a record that is full or gone changes nothing about the
  rest.
* The text. It is compiled as `compile` compiles it, with no record at all, since recording never
  matters (`artifact_unrecorded`, `draft?_unrecorded`).
* The artifact. It is made as a whole before a file is opened for it, so that where making it fails
  there is nothing to take back (`emitArtifact_fails`).

How compiling fails is then a question about the solution and the format alone
(`compile_error_iff`).
-/

namespace Stencil.Command

/-! ## Trees of files -/

namespace FileTree

variable {t t' : FileTree} {p q : Path} {bs : List UInt8}

/-- Something stands at a path if the path is one from above, or if it leads on to an entry. -/
theorem isSome_node?_iff :
    (t.node? q).isSome = true ↔ isAbove q = true ∨ ∃ e ∈ t.entries, q <+: e.1 := by
  unfold node?
  cases hlookup : t.entries.lookup q with
  | some n =>
    obtain ⟨e, he, hq⟩ := List.lookup_isSome_iff.mp (by rw [hlookup]; rfl)
    exact ⟨fun _ => Or.inr ⟨e, he, by rw [eq_of_beq hq]⟩, fun _ => rfl⟩
  | none => simp

theorem node?_congr (hlookup : t'.entries.lookup q = t.entries.lookup q)
    (hsome : (t'.node? q).isSome = true ↔ (t.node? q).isSome = true) : t'.node? q = t.node? q := by
  unfold node? at hsome ⊢
  rw [hlookup] at hsome ⊢
  cases hnone : t.entries.lookup q with
  | some n => rfl
  | none =>
    rw [hnone] at hsome
    dsimp only at hsome ⊢
    split_ifs at hsome ⊢
    · rfl
    · exact absurd (hsome.mp rfl) (by simp)
    · exact absurd (hsome.mpr rfl) (by simp)
    · rfl

theorem lookup_setFile_of_ne (h : q ≠ p) :
    (t.setFile p bs).entries.lookup q = t.entries.lookup q := by
  show List.lookup q ((p, .file bs) :: t.entries.filter (·.1 ≠ p)) = _
  rw [List.lookup_cons, beq_false_of_ne h]
  show List.lookup q (t.entries.filter (·.1 ≠ p)) = _
  induction t.entries with
  | nil => rfl
  | cons e es ih =>
    by_cases he : e.1 = p
    · rw [List.filter_cons_of_neg (by simpa using he), ih, List.lookup_cons,
        beq_false_of_ne (by rw [he]; exact h)]
    · rw [List.filter_cons_of_pos (by simpa using he), List.lookup_cons, List.lookup_cons, ih]

@[simp] theorem node?_setFile_self : (t.setFile p bs).node? p = some (.file bs) := by
  simp [node?, setFile]

theorem bytes_setFile_self : (t.setFile p bs).bytes p = bs := by
  rw [bytes, node?_setFile_self]

/-- After a write a path exists if it existed before, or if it is on the way to what was written. -/
theorem isSome_node?_setFile_iff :
    ((t.setFile p bs).node? q).isSome = true ↔ (t.node? q).isSome = true ∨ q <+: p := by
  rw [isSome_node?_iff, isSome_node?_iff]
  constructor
  · rintro (habove | ⟨e, he, hq⟩)
    · exact Or.inl (Or.inl habove)
    · rcases List.mem_cons.mp he with rfl | he
      · exact Or.inr hq
      · exact Or.inl (Or.inr ⟨e, List.mem_of_mem_filter he, hq⟩)
  · rintro ((habove | ⟨e, he, hq⟩) | hq)
    · exact Or.inl habove
    · by_cases hp : e.1 = p
      · exact Or.inr ⟨_, List.mem_cons_self, hp ▸ hq⟩
      · exact Or.inr ⟨e, List.mem_cons_of_mem _ (List.mem_filter.mpr ⟨he, by simpa using hp⟩), hq⟩
    · exact Or.inr ⟨_, List.mem_cons_self, hq⟩

/-- Something stands at every path on the way to the path. -/
def Rooted (t : FileTree) (p : Path) : Prop := ∀ q, q <+: p → q ≠ p → (t.node? q).isSome = true

/-- **A write changes one path**, if the directories above it are there: nothing has to be made on
    the way. -/
theorem node?_setFile_of_ne (hp : t.Rooted p) (hq : q ≠ p) :
    (t.setFile p bs).node? q = t.node? q := by
  refine node?_congr (lookup_setFile_of_ne hq) ?_
  rw [isSome_node?_setFile_iff]
  constructor
  · rintro (hsome | hupto)
    · exact hsome
    · exact hp q hupto hq
  · exact Or.inl

/-! ### Paths that can be written -/

/-- The directory that holds the tree, and every directory above it, exists in any tree. -/
theorem rooted_of_isAbove (h : isAbove p = true) : t.Rooted p := by
  intro q hupto _
  refine isSome_node?_iff.mpr (Or.inl ?_)
  rw [isAbove, List.all_eq_true] at h ⊢
  exact fun name hname => h name (hupto.subset hname)

theorem Rooted.concat (h : t.Rooted p) (hp : (t.node? p).isSome = true) (name : String) :
    t.Rooted (p ++ [name]) := by
  intro q hupto hne
  rcases List.prefix_concat_iff.mp hupto with heq | hupto
  · exact absurd heq hne
  · by_cases hq : q = p
    · rw [hq]
      exact hp
    · exact h q hupto hq

theorem Rooted.parent (h : t.Rooted p) : t.Rooted (parent p) := by
  unfold FileTree.parent
  split_ifs with habove
  · refine rooted_of_isAbove ?_
    rw [isAbove, List.all_cons, Bool.and_eq_true]
    exact ⟨rfl, habove⟩
  · intro q hupto _
    refine h q (hupto.trans (List.dropLast_prefix p)) ?_
    rintro rfl
    have hlength := hupto.length_le
    rw [List.length_dropLast] at hlength
    have hnil : q = [] := List.length_eq_zero_iff.mp (by omega)
    exact habove (by rw [hnil]; rfl)

/-- Walking goes through directories that exist, and where it arrives, all directories above do. -/
theorem rooted_walk (names : List String) : ∀ {place : Path}, t.Rooted place →
    t.walk place names = .ok p → t.Rooted p := by
  induction names with
  | nil =>
    intro place hplace h
    injection h with h
    rw [← h]
    exact hplace
  | cons name names ih =>
    intro place hplace h
    rw [walk] at h
    cases hnode : t.node? place with
    | none => rw [hnode] at h; cases h
    | some n =>
      cases n with
      | file content => rw [hnode] at h; cases h
      | directory =>
        rw [hnode] at h
        dsimp only at h
        split_ifs at h
        · exact ih hplace h
        · exact ih hplace.parent h
        · exact ih (hplace.concat (by rw [hnode]; rfl) name) h

theorem isAbove_start {path : String} {w : Written} (h : Written.ofText path = .ok w) :
    isAbove w.start = true := by
  unfold Written.ofText at h
  split_ifs at h
  · injection h with h
    rw [← h]
    rfl
  · injection h with h
    rw [← h]
    rfl

/-- A path can be written exactly if it leads to a place that is no directory. -/
theorem writable_eq_ok_iff {path : String} :
    t.writable path = .ok p ↔ ∃ w, Written.ofText path = .ok w ∧ w.slash = false
      ∧ t.walk w.start w.names = .ok p ∧ t.node? p ≠ some .directory := by
  unfold writable
  cases Written.ofText path with
  | error e => simp [bind, Except.bind]
  | ok w =>
    obtain ⟨start, names, slash⟩ := w
    cases slash with
    -- with a slash at its end a path names a directory, whatever is there
    | true =>
      cases hwalk : t.walk start (names.dropLast ++ ["."]) with
      | error e => simp [bind, Except.bind, hwalk]
      | ok place => simp [bind, Except.bind, hwalk]
    | false =>
      cases hwalk : t.walk start names with
      | error e => simp [bind, Except.bind, hwalk]
      | ok place =>
        by_cases hplace : place = p
        · subst hplace
          cases hnode : t.node? place with
          | none => simp [bind, Except.bind, hwalk, hnode]
          | some n => cases n <;> simp [bind, Except.bind, hwalk, hnode]
        · cases hnode : t.node? place with
          | none => simp [bind, Except.bind, hwalk, hnode, hplace]
          | some n => cases n <;> simp [bind, Except.bind, hwalk, hnode, hplace]

/-- A path that can be written has its directories, since writing makes none. -/
theorem rooted_of_writable {path : String} (h : t.writable path = .ok p) : t.Rooted p := by
  obtain ⟨w, hw, _, hwalk, _⟩ := writable_eq_ok_iff.mp h
  exact rooted_walk w.names (rooted_of_isAbove (isAbove_start hw)) hwalk

/-- The trees have the same nodes, except perhaps at a place that is no directory. -/
structure Agree (t t' : FileTree) (except : Option Path) : Prop where
  same : ∀ q, except ≠ some q → t'.node? q = t.node? q
  noDirectory : ∀ q, except = some q → t.node? q ≠ some .directory

theorem Agree.walk {except : Option Path} (h : Agree t t' except) (names : List String) :
    ∀ {place : Path}, t.walk place names = .ok p → t'.walk place names = .ok p := by
  induction names with
  | nil =>
    intro place hwalk
    exact hwalk
  | cons name names ih =>
    intro place hwalk
    rw [FileTree.walk] at hwalk
    cases hnode : t.node? place with
    | none => rw [hnode] at hwalk; cases hwalk
    | some n =>
      cases n with
      | file content => rw [hnode] at hwalk; cases hwalk
      | directory =>
        -- a directory is left, so this is not the place where the trees differ
        have hsame : t'.node? place = t.node? place :=
          h.same place fun heq => h.noDirectory place heq hnode
        rw [FileTree.walk, hsame]
        rw [hnode] at hwalk ⊢
        dsimp only at hwalk ⊢
        split_ifs at hwalk ⊢
        · exact ih hwalk
        · exact ih hwalk
        · exact ih hwalk

/-- A path that can be written can still be written after a write to another one. -/
theorem Agree.writable {except : Option Path} (h : Agree t t' except) {path : String}
    (hpath : t.writable path = .ok p) (hp : except ≠ some p) : t'.writable path = .ok p := by
  obtain ⟨w, hw, hslash, hwalk, hnode⟩ := writable_eq_ok_iff.mp hpath
  refine writable_eq_ok_iff.mpr ⟨w, hw, hslash, h.walk w.names hwalk, ?_⟩
  rw [h.same p hp]
  exact hnode

end FileTree

/-! ## Texts as bytes -/

theorem toList_loop (bs : ByteArray) (i : Nat) (r : List UInt8) :
    ByteArray.toList.loop bs i r = r.reverse ++ bs.data.toList.drop i := by
  fun_induction ByteArray.toList.loop bs i r with
  | case1 i r h ih =>
    have hdrop : bs.data.toList.drop i = bs.get! i :: bs.data.toList.drop (i + 1) := by
      rw [List.drop_eq_getElem_cons (by simpa using h)]
      congr 1
      simp [ByteArray.get!, getElem!_pos, h]
    rw [ih, hdrop, List.reverse_cons, List.append_assoc]
    rfl
  | case2 i r h =>
    rw [List.drop_eq_nil_of_le (by simpa using Nat.le_of_not_lt h), List.append_nil]

/-- The bytes of a text are read as the text. -/
theorem fromUTF8?_toUTF8 (text : String) :
    String.fromUTF8? (ByteArray.mk text.toUTF8.toList.toArray) = some text := by
  have hbytes : ByteArray.mk text.toUTF8.toList.toArray = text.toByteArray := by
    rw [ByteArray.toList, toList_loop]
    simp
  rw [hbytes, String.fromUTF8?, dif_pos text.isValidUTF8]
  rfl

/-! ## Effects -/

namespace World

variable {w w' w'' : World} {p : Path} {except : Option Path}

/-- The worlds differ at one path at most, if one is given, and in what is printed as errors. Nothing
    vanishes. -/
structure SameBut (except : Option Path) (w w' : World) : Prop where
  files : ∀ q, except ≠ some q → w'.files.node? q = w.files.node? q
  kept : ∀ q, (w.files.node? q).isSome = true → (w'.files.node? q).isSome = true
  stdout : w'.stdout = w.stdout

theorem SameBut.refl (except : Option Path) (w : World) : SameBut except w w :=
  ⟨fun _ _ => rfl, fun _ h => h, rfl⟩

theorem SameBut.trans (h : SameBut except w w') (h' : SameBut except w' w'') :
    SameBut except w w'' where
  files q hq := (h'.files q hq).trans (h.files q hq)
  kept q hq := h'.kept q (h.kept q hq)
  stdout := h'.stdout.trans h.stdout

theorem SameBut.rooted (h : SameBut except w w') (hp : w.files.Rooted p) : w'.files.Rooted p :=
  fun q hupto hne => h.kept q (hp q hupto hne)

/-- What is printed as an error changes no file. -/
theorem sameBut_printError (except : Option Path) (w : World) (text : String) :
    SameBut except w { w with stderr := w.stderr ++ text } :=
  ⟨fun _ _ => rfl, fun _ h => h, rfl⟩

/-- A write to a file leaves all else as it was: every other path, and both streams. -/
theorem sameBut_setFile (hp : w.files.Rooted p) (bs : List UInt8) :
    SameBut (some p) w { w with files := w.files.setFile p bs } where
  files q hq := FileTree.node?_setFile_of_ne hp fun heq => hq (by rw [heq])
  kept q hq := FileTree.isSome_node?_setFile_iff.mpr (Or.inl hq)
  stdout := rfl

/-- The given places are what the given paths lead to, if they can be written. -/
def Opens (w : World) (path : Option String) (place : Option Path) : Prop :=
  path.map w.files.writable = place.map .ok

theorem Opens.cases {path : Option String} {place : Option Path} (h : w.Opens path place) :
    (path = none ∧ place = none)
      ∨ ∃ text q, path = some text ∧ place = some q ∧ w.files.writable text = .ok q := by
  cases path with
  | none =>
    cases place with
    | none => exact Or.inl ⟨rfl, rfl⟩
    | some q => cases h
  | some text =>
    cases place with
    | none => cases h
    | some q => exact Or.inr ⟨text, q, rfl, rfl, Option.some.inj h⟩

/-- A path that is opened for writing is not that of a directory, so that its file can be
    emptied. -/
theorem Opens.noDirectory {path : Option String} {place : Option Path} (h : w.Opens path place) :
    ∀ q, place = some q → w.files.node? q ≠ some .directory := by
  intro q hq
  obtain ⟨_, hplace⟩ | ⟨text, q', _, hplace, hpath⟩ := h.cases
  · exact absurd (hplace.symm.trans hq) (by simp)
  · obtain rfl := Option.some.inj (hplace.symm.trans hq)
    obtain ⟨_, _, _, _, hnode⟩ := FileTree.writable_eq_ok_iff.mp hpath
    exact hnode

/-- A path can still be written after a change elsewhere. -/
theorem SameBut.opens (h : SameBut except w w')
    (hno : ∀ q, except = some q → w.files.node? q ≠ some .directory) {path : Option String}
    {place : Option Path} (hopens : w.Opens path place)
    (hapart : ∀ q, place = some q → except ≠ some q) : w'.Opens path place := by
  obtain ⟨rfl, rfl⟩ | ⟨text, q, rfl, rfl, hpath⟩ := hopens.cases
  · rfl
  · have hagree : FileTree.Agree w.files w'.files except := ⟨h.files, hno⟩
    exact congrArg some (hagree.writable hpath (hapart q rfl))

/-- A record is written to the given place, where it can be. -/
structure Logs (w : World) (log : Option Cursor) (record : Option Path) : Prop where
  place : log.map Cursor.path = record
  rooted : ∀ q, record = some q → w.files.Rooted q
  noDirectory : ∀ q, record = some q → w.files.node? q ≠ some .directory

/-- A record can be written on where it has been written. -/
theorem logs_setFile (hp : w.files.Rooted p) (bs : List UInt8) (position : Nat) :
    Logs { w with files := w.files.setFile p bs } (some ⟨p, position⟩) (some p) where
  place := rfl
  rooted q hq := by
    obtain rfl := Option.some.inj hq
    exact (sameBut_setFile hp bs).rooted hp
  noDirectory q hq := by
    obtain rfl := Option.some.inj hq
    rw [FileTree.node?_setFile_self]
    simp

end World

open World (SameBut)

/-! ### One effect after the other -/

section Effects

variable {α β : Type} {w w' : World} {record output : Option Path} {log : Option World.Cursor}

theorem run_bind {x : StateM World α} {f : α → StateM World β} {a : α}
    (h : x.run w = (a, w')) : (x >>= f).run w = (f a).run w' := by
  rw [StateT.run_bind, h]
  rfl

/-- Reading a text changes nothing, and gives the text whose bytes the file has. -/
theorem readText_run {path source : String} (h : w.files.read path = .ok source.toUTF8.toList) :
    (World.readText path).run w = (.ok source, w) := by
  have hget : (get : StateM World World).run w = (w, w) := rfl
  rw [World.readText, run_bind hget, h]
  dsimp only
  rw [fromUTF8?_toUTF8]
  rfl

/-- A file that is created is empty, and is written from its start. -/
theorem create_run {path : String} {p : Path} (h : w.files.writable path = .ok p) :
    (World.create path).run w = (.ok ⟨p, 0⟩, { w with files := w.files.setFile p [] }) := by
  have hget : (get : StateM World World).run w = (w, w) := rfl
  rw [World.create, run_bind hget, h]
  rfl

/-- A line of the record goes to the file of the record, if anywhere, and is never a reason to
    stop. -/
theorem writeRecord_run (hlog : w.Logs log record) (text : String) :
    ∃ log' w', (writeRecord World.platform log text).run w = (log', w') ∧ w'.Logs log' record
      ∧ SameBut record w w' := by
  cases log with
  | none => exact ⟨none, w, rfl, hlog, .refl record w⟩
  | some c =>
    obtain rfl : some c.path = record := hlog.place
    have hsame := World.sameBut_setFile (hlog.rooted c.path rfl)
      (FileTree.overwrite (w.files.bytes c.path) c.position text.toUTF8.toList)
    exact ⟨_, _, rfl, World.logs_setFile (hlog.rooted c.path rfl) _ _, hsame⟩

theorem openRecord_run {path : Option String} (hopens : w.Opens path record) :
    ∃ log w', (openRecord World.platform path).run w = (.ok log, w') ∧ w'.Logs log record
      ∧ SameBut record w w' := by
  obtain ⟨rfl, rfl⟩ | ⟨text, q, rfl, rfl, hpath⟩ := hopens.cases
  · exact ⟨none, w, rfl, ⟨rfl, by simp, by simp⟩, .refl none w⟩
  · have hrooted := FileTree.rooted_of_writable hpath
    refine ⟨some ⟨q, 0⟩, _, ?_, World.logs_setFile hrooted [] 0, World.sameBut_setFile hrooted []⟩
    rw [openRecord]
    exact run_bind (create_run hpath)

/-- A text has been written to the given place, or has been printed if there is none. -/
structure Wrote (output : Option Path) (text : String) (w w' : World) : Prop where
  stdout : w'.stdout = if output.isNone then w.stdout ++ text else w.stdout
  file : ∀ q, output = some q → w'.files.node? q = some (.file text.toUTF8.toList)
  files : ∀ q, output ≠ some q → w'.files.node? q = w.files.node? q
  kept : ∀ q, (w.files.node? q).isSome = true → (w'.files.node? q).isSome = true

/-- The artifact is written to its file, or to the output if there is none, and all of it
    arrives. -/
theorem writeArtifact_run {path : Option String} (hopens : w.Opens path output) (text : String) :
    ∃ w', (writeArtifact World.platform path text).run w = (.ok (), w') ∧ Wrote output text w w' := by
  obtain ⟨rfl, rfl⟩ | ⟨path, q, rfl, rfl, hpath⟩ := hopens.cases
  · exact ⟨_, rfl, rfl, by simp, fun _ _ => rfl, fun _ h => h⟩
  · have hrooted := FileTree.rooted_of_writable hpath
    have hcreate := World.sameBut_setFile hrooted []
    have hsame := hcreate.trans
      (World.sameBut_setFile (hcreate.rooted hrooted) text.toUTF8.toList)
    refine ⟨_, ?_, hsame.stdout, ?_, hsame.files, hsame.kept⟩
    · rw [writeArtifact]
      refine (run_bind (create_run hpath)).trans ?_
      have hempty : FileTree.overwrite ((w.files.setFile q []).bytes q) 0 text.toUTF8.toList
          = text.toUTF8.toList := by
        rw [FileTree.bytes_setFile_self]
        simp [FileTree.overwrite]
      show (Except.ok (), { w with files := (w.files.setFile q []).setFile q (FileTree.overwrite
        ((w.files.setFile q []).bytes q) 0 text.toUTF8.toList) }) = _
      rw [hempty]
    · intro q' hq'
      obtain rfl := Option.some.inj hq'
      exact FileTree.node?_setFile_self

/-- The record can be written on after a text has been written elsewhere. -/
theorem Wrote.logs {text : String} (h : Wrote output text w w') (hlog : w.Logs log record)
    (hapart : ∀ q, output = some q → record ≠ some q) : w'.Logs log record where
  place := hlog.place
  rooted q hq q' hupto hne := h.kept q' (hlog.rooted q hq q' hupto hne)
  noDirectory q hq := by
    rw [h.files q fun houtput => hapart q houtput hq]
    exact hlog.noDirectory q hq

end Effects

/-! ## Runs -/

/-- The run has ended with the code. It has printed nothing, and has changed no file but that of its
    record. -/
structure Failed (record : Option Path) (code : Nat) (w : World) (run : Nat × World) : Prop where
  exit : run.1 = code
  stdout : run.2.stdout = w.stdout
  files : ∀ q, record ≠ some q → run.2.files.node? q = w.files.node? q

/-- The run has ended with 0. The text is what the output file holds, or what has been printed if
    there is none, and no other file has been changed but that of the record. -/
structure Succeeded (record output : Option Path) (text : String) (w : World)
    (run : Nat × World) : Prop where
  exit : run.1 = 0
  stdout : run.2.stdout = if output.isNone then w.stdout ++ text else w.stdout
  file : ∀ q, output = some q → run.2.files.node? q = some (.file text.toUTF8.toList)
  files : ∀ q, record ≠ some q → output ≠ some q → run.2.files.node? q = w.files.node? q

section Runs

variable {w w' : World} {record output : Option Path} {log : Option World.Cursor} {s : Settings}
  {path source text : String} {code : Nat} {run : Nat × World}

/-- A run has failed if it exits with the code and has changed the record alone. -/
theorem Failed.of_sameBut (h : SameBut record w w') : Failed record code w (code, w') :=
  ⟨rfl, h.stdout, h.files⟩

/-- What a run does after changes to the record alone. -/
theorem SameBut.failed (h : SameBut record w w') (hrun : Failed record code w' run) :
    Failed record code w run where
  exit := hrun.exit
  stdout := hrun.stdout.trans h.stdout
  files q hq := (hrun.files q hq).trans (h.files q hq)

theorem SameBut.succeeded (h : SameBut record w w') (hrun : Succeeded record output text w' run) :
    Succeeded record output text w run where
  exit := hrun.exit
  stdout := by rw [hrun.stdout, h.stdout]
  file := hrun.file
  files q hq hq' := (hrun.files q hq hq').trans (h.files q hq)

/-- A run without an artifact writes the record and nothing else. -/
theorem emitArtifact_fails {d d' : Draft} {e : Error} (hlog : w.Logs log record)
    (hartifact : artifact s source d = (.error e, d')) :
    Failed record (exitCode e) w ((emitArtifact World.platform s source log d).run w) := by
  unfold emitArtifact
  rw [hartifact]
  dsimp only
  obtain ⟨log₁, w₁, hearly, hlog₁, hsame₁⟩ :=
    writeRecord_run hlog (splitRecord ((d'.log.map Sink.text).getD "")).1
  obtain ⟨log₂, w₂, hlate, _, hsame₂⟩ :=
    writeRecord_run hlog₁ (splitRecord ((d'.log.map Sink.text).getD "")).2
  rw [run_bind hearly]
  have hresult : (pure (.error e) : StateM World (Except Error Unit)).run w₁ = (.error e, w₁) := rfl
  rw [run_bind hresult, run_bind hlate]
  exact .of_sameBut ((hsame₁.trans hsame₂).trans (World.sameBut_printError record w₂ (errorLine e)))

/-- A run with an artifact writes it, and the record before and after it. -/
theorem emitArtifact_succeeds {d d' : Draft} (hlog : w.Logs log record)
    (hopens : w.Opens s.output output) (hapart : ∀ q, output = some q → record ≠ some q)
    (hartifact : artifact s source d = (.ok text, d')) :
    Succeeded record output text w ((emitArtifact World.platform s source log d).run w) := by
  unfold emitArtifact
  rw [hartifact]
  dsimp only
  obtain ⟨log₁, w₁, hearly, hlog₁, hsame₁⟩ :=
    writeRecord_run hlog (splitRecord ((d'.log.map Sink.text).getD "")).1
  obtain ⟨w₂, hwrite, hwrote⟩ :=
    writeArtifact_run (hsame₁.opens hlog.noDirectory hopens hapart) text
  obtain ⟨log₃, w₃, hlate, _, hsame₃⟩ :=
    writeRecord_run (hwrote.logs hlog₁ hapart) (splitRecord ((d'.log.map Sink.text).getD "")).2
  rw [run_bind hearly, run_bind hwrite, run_bind hlate]
  refine ⟨rfl, ?_, ?_, ?_⟩
  · show w₃.stdout = _
    rw [hsame₃.stdout, hwrote.stdout, hsame₁.stdout]
  · intro q hq
    exact (hsame₃.files q (hapart q hq)).trans (hwrote.file q hq)
  · intro q hrecord houtput
    exact ((hsame₃.files q hrecord).trans (hwrote.files q houtput)).trans (hsame₁.files q hrecord)

/-! ### From the source on -/

theorem printError_run (w : World) (text : String) :
    (World.platform.printError text).run w = ((), { w with stderr := w.stderr ++ text }) := rfl

theorem World.Logs.printError (h : w.Logs log record) (text : String) :
    World.Logs { w with stderr := w.stderr ++ text } log record :=
  ⟨h.place, h.rooted, h.noDirectory⟩

/-- The artifact is made from the solution; its record does not matter. -/
theorem artifact_unrecorded (s : Settings) (source : String) (d : Draft) :
    (artifact s source d.unrecorded).1 = (artifact s source d).1 := by
  unfold artifact
  cases s.emit.getD .code with
  | buildInfo => rfl
  | code =>
    have hrender := Edit.oblivious_render (.builtin (!s.noSharing)) (s.format.getD "cpp") d
    simp only [Draft.render, hrender]

/-- What the front end gives a run with a record is what it gives without one. -/
theorem draft?_unrecorded (elementBytes : Option Nat) (sink : Option Sink) :
    (Source.compileSource source elementBytes none).draft?
      = (Source.compileSource source elementBytes sink).draft?.map Draft.unrecorded := by
  rw [Source.compileSource_unrecorded source elementBytes sink]
  rfl

/-- A text in which something is found is reported and leads to no artifact, with the exit code of a
    rejected text. -/
theorem compileText_fails (hlog : w.Logs log record)
    (hfront : (Source.compileSource source s.elementBytes none).draft? = none) :
    Failed record 1 w ((compileText World.platform s path source log).run w) := by
  rw [draft?_unrecorded _ (@Option.map World.platform.Handle _ (fun _ => .empty none) log),
    Option.map_eq_none_iff] at hfront
  unfold compileText
  dsimp only
  rw [run_bind (printError_run w _), hfront]
  obtain ⟨log₁, w₁, hrecord, _, hsame⟩ := writeRecord_run (hlog.printError _) _
  rw [run_bind hrecord]
  exact .of_sameBut ((World.sameBut_printError record w _).trans hsame)

variable (path) in
/-- A text in which nothing is found is handed on as the solution that it stands for, recorded or
    not. -/
theorem compileText_emits {solution : Solution} (hlog : w.Logs log record)
    (hfront : (Source.compileSource source s.elementBytes none).draft? = some ⟨solution, none⟩) :
    ∃ d w', d.unrecorded = ⟨solution, none⟩ ∧ SameBut record w w' ∧ w'.Logs log record
      ∧ (compileText World.platform s path source log).run w
        = (emitArtifact World.platform s source log d).run w' := by
  rw [draft?_unrecorded _ (@Option.map World.platform.Handle _ (fun _ => .empty none) log),
    Option.map_eq_some_iff] at hfront
  obtain ⟨d, hd, hsolution⟩ := hfront
  unfold compileText
  dsimp only
  rw [run_bind (printError_run w _), hd]
  exact ⟨d, _, hsolution, World.sameBut_printError record w _, hlog.printError _, rfl⟩

/-- What a run is given: it compiles the source, its files can be read and written, and the output is
    not the record. -/
structure Ready (s : Settings) (files : FileTree) (path source : String)
    (output record : Option Path) : Prop where
  named : s.source = some path
  compiles : s.listFormats = false
  readable : files.read path = .ok source.toUTF8.toList
  outputOpens : s.output.map files.writable = output.map .ok
  recordOpens : s.debugOutput.map files.writable = record.map .ok
  apart : ∀ q, output = some q → record ≠ some q

/-- A run reads its source and opens its record. -/
theorem runRequest_compiles {files : FileTree} (h : Ready s files path source output record) :
    ∃ log w', SameBut record ⟨files, "", ""⟩ w' ∧ w'.Logs log record ∧ w'.Opens s.output output
      ∧ (runRequest World.platform (.run s)).run ⟨files, "", ""⟩
        = (compileText World.platform s path source log).run w' := by
  have hopens : World.Opens ⟨files, "", ""⟩ s.debugOutput record := h.recordOpens
  obtain ⟨log, w', hopen, hlog, hsame⟩ := openRecord_run hopens
  refine ⟨log, w', hsame, hlog, hsame.opens hopens.noDirectory h.outputOpens h.apart, ?_⟩
  unfold runRequest
  simp only [h.compiles, h.named, Bool.false_eq_true, if_false]
  unfold compileFile
  have hread : (World.platform.read path).run ⟨files, "", ""⟩ = (.ok source, ⟨files, "", ""⟩) :=
    readText_run h.readable
  rw [run_bind hread]
  dsimp only
  rw [run_bind hopen]

end Runs

/-! ## All or nothing -/

section AllOrNothing

variable {s : Settings} {files : FileTree} {path source : String} {output record : Option Path}

/-- Without a record, a solution is all that the front end gives. -/
theorem draft?_of_solution? {elementBytes : Option Nat} {solution : Solution}
    (h : (Source.compileSource source elementBytes none).solution? = some solution) :
    (Source.compileSource source elementBytes none).draft? = some ⟨solution, none⟩ := by
  obtain ⟨d, hd, rfl⟩ := Option.map_eq_some_iff.mp h
  rw [draft?_unrecorded elementBytes none, hd]
  rfl

/-! ### What is compiled -/

section Compile

variable {solution : Solution} {options : CompileOptions}
  (h : (Source.compileSource source options.elementBytes none).solution? = some solution)
  {format : String}

include h

/-- If the front end accepts the source, what is compiled is what is rendered. -/
theorem compile_of_solution (format : String) :
    compile source format options
      = ((⟨solution, none⟩ : Draft).render (.builtin options.share) format).1.mapError .format := by
  unfold compile
  dsimp only
  rw [draft?_of_solution? h]
  dsimp only
  cases ((⟨solution, none⟩ : Draft).render (.builtin options.share) format).1 with
  | ok text => rfl
  | error e => rfl

/-- A format that is not known is refused by name, together with the formats that are. -/
theorem compile_unknown (hformat : format ∉ Format.knownIds) :
    ∃ ids, compile source format options = .error (.format (.unsupportedFormat format ids)) := by
  rw [compile_of_solution h]
  rcases Draft.render_cases ⟨solution, none⟩ options.share format with
    ⟨_, ids, hrender⟩ | ⟨hlowers, _⟩ | ⟨hknown, _⟩
  · exact ⟨ids, by rw [hrender]; rfl⟩
  · exact absurd (Format.mem_knownIds_of_lowers hlowers) hformat
  · exact absurd hknown hformat

/-- A format that lowers the equations refuses a solution that divides by a constant zero. -/
theorem compile_divides (hformat : format ∈ Format.loweringIds) (hzero : solution.DividesByZero) :
    ∃ expr, compile source format options = .error (.format (.divisionByZero expr)) := by
  rw [compile_of_solution h]
  rcases Draft.render_cases ⟨solution, none⟩ options.share format with
    ⟨hunknown, _⟩ | ⟨_, _, expr, hrender⟩ | ⟨_, hnot, _⟩
  · exact absurd (Format.mem_knownIds_of_lowers hformat) hunknown
  · exact ⟨expr, by rw [hrender]; rfl⟩
  · exact absurd hzero (hnot hformat)

/-- **Nothing else can fail**: a known format renders every solution without such a division, and
    without lowering every solution. -/
theorem compile_succeeds (hformat : format ∈ Format.knownIds)
    (hnot : format ∈ Format.loweringIds → ¬ solution.DividesByZero) :
    ∃ text, compile source format options = .ok text := by
  rw [compile_of_solution h]
  rcases Draft.render_cases ⟨solution, none⟩ options.share format with
    ⟨hunknown, _⟩ | ⟨hlowers, hzero, _⟩ | ⟨_, _, text, hrender⟩
  · exact absurd hformat hunknown
  · exact absurd hzero (hnot hlowers)
  · exact ⟨text, by rw [hrender]; rfl⟩

/-- **Rendering fails exactly if the format is not known, or if it lowers the equations and one of them
    divides by zero.** -/
theorem compile_error_iff :
    (∃ e, compile source format options = .error e) ↔
      format ∉ Format.knownIds ∨ format ∈ Format.loweringIds ∧ solution.DividesByZero := by
  constructor
  · rintro ⟨e, he⟩
    by_contra hnot
    obtain ⟨hknown, hdivides⟩ := not_or.mp hnot
    obtain ⟨text, htext⟩ := compile_succeeds h (not_not.mp hknown) (not_and.mp hdivides)
    rw [htext] at he
    cases he
  · rintro (hunknown | ⟨hlowers, hzero⟩)
    · obtain ⟨ids, hresult⟩ := compile_unknown h hunknown
      exact ⟨_, hresult⟩
    · obtain ⟨expr, hresult⟩ := compile_divides h hlowers hzero
      exact ⟨_, hresult⟩

/-- The formats that do not lower the equations never fail. -/
theorem compile_fixed (hformat : format = "dot" ∨ format = "json") :
    ∃ text, compile source format options = .ok text := by
  have hids : format ∈ Format.knownIds ∧ format ∉ Format.loweringIds := by
    rcases hformat with rfl | rfl <;> decide
  exact compile_succeeds h hids.1 fun hlowers => absurd hlowers hids.2

end Compile

/-! ### How a run ends -/

/-- A run on a text that is rejected fails, whatever artifact it was to make. -/
theorem run_of_rejected (h : Ready s files path source output record)
    (hnone : (Source.compileSource source s.elementBytes none).solution? = none) :
    Failed record 1 ⟨files, "", ""⟩
      ((runRequest World.platform (.run s)).run ⟨files, "", ""⟩) := by
  obtain ⟨log, w, hsame, hlog, _, hrun⟩ := runRequest_compiles h
  rw [hrun]
  exact SameBut.failed hsame (compileText_fails hlog (Option.map_eq_none_iff.mp hnone))

/-- A run ends as the making of its artifact does. -/
theorem run_of_solution (h : Ready s files path source output record) {solution : Solution}
    (hsolution : (Source.compileSource source s.elementBytes none).solution? = some solution) :
    let run := (runRequest World.platform (.run s)).run ⟨files, "", ""⟩
    match (artifact s source ⟨solution, none⟩).1 with
    | .ok text => Succeeded record output text ⟨files, "", ""⟩ run
    | .error e => Failed record (exitCode e) ⟨files, "", ""⟩ run := by
  intro run
  obtain ⟨log, w, hsame, hlog, hopens, hrun⟩ := runRequest_compiles h
  obtain ⟨d, w', hd, hsame', hlog', hemits⟩ :=
    compileText_emits path hlog (draft?_of_solution? hsolution)
  have hrun : run = (emitArtifact World.platform s source log d).run w' := hrun.trans hemits
  rw [hrun, ← hd, artifact_unrecorded]
  cases hartifact : artifact s source d with
  | mk result d' =>
    cases result with
    | ok text =>
      exact SameBut.succeeded (hsame.trans hsame')
        (emitArtifact_succeeds hlog' (hsame'.opens hlog.noDirectory hopens h.apart) h.apart hartifact)
    | error e => exact SameBut.failed (hsame.trans hsame') (emitArtifact_fails hlog' hartifact)

/-- A run for code ends as the compilation does. -/
theorem run_of_compile (h : Ready s files path source output record) {solution : Solution}
    (hsolution : (Source.compileSource source s.elementBytes none).solution? = some solution)
    (hemit : s.emit.getD .code = .code) :
    let run := (runRequest World.platform (.run s)).run ⟨files, "", ""⟩
    let result := compile source (s.format.getD "cpp") ⟨s.elementBytes, !s.noSharing⟩
    (∀ text, result = .ok text → Succeeded record output text ⟨files, "", ""⟩ run)
      ∧ ∀ e, result = .error (.format e) → Failed record (exitCode e) ⟨files, "", ""⟩ run := by
  intro run result
  have hrun := run_of_solution h hsolution
  have hresult : result = _ := compile_of_solution hsolution _
  unfold artifact at hrun
  rw [hemit] at hrun
  dsimp only at hrun
  cases hrender : ((⟨solution, none⟩ : Draft).render (.builtin (!s.noSharing))
      (s.format.getD "cpp")).1 with
  | ok text =>
    rw [hrender] at hrun hresult
    rw [hresult, Except.mapError]
    refine ⟨fun text' heq => ?_, fun e heq => absurd heq (by simp)⟩
    cases heq
    exact hrun
  | error e =>
    rw [hrender] at hrun hresult
    rw [hresult, Except.mapError]
    refine ⟨fun text heq => absurd heq (by simp), fun e' heq => ?_⟩
    cases heq
    exact hrun

end AllOrNothing

/-- **A run is all or nothing.** Whatever the source, the settings and the files are, if the front end
    rejects the source, or the artifact cannot be rendered, then nothing is printed and no file changes
    but that of the record; the exit code is 1 for the source and for a division by zero, and 2 for a
    format that is not known. Otherwise the exit code is 0, and the output file, or what is printed, is
    the text that `compile` gives, or the provenance if that is asked for.

    Rendering fails exactly if the format is not known, or if it lowers the equations and one of them
    divides by an expression without points that is worth zero. -/
theorem run_all_or_nothing (s : Settings) (files : FileTree) (path source : String)
    (output record : Option Path) (h : Ready s files path source output record) :
    let start : World := ⟨files, "", ""⟩
    let run := (runRequest World.platform (.run s)).run start
    let front := Source.compileSource source s.elementBytes none
    let format := s.format.getD "cpp"
    let result := compile source format ⟨s.elementBytes, !s.noSharing⟩
    (∀ args, Request.ofArgs? args = some (.run s) → runInMemory args files = .exit run.1 run.2)
    ∧ (front.solution? = none → Failed record 1 start run)
    ∧ (∀ solution, front.solution? = some solution → s.emit.getD .code = .buildInfo →
        Succeeded record output (solution.provenance source) start run)
    ∧ (∀ solution, front.solution? = some solution → s.emit.getD .code = .code →
        (∀ text, result = .ok text → Succeeded record output text start run)
        ∧ ((∃ e, result = .error e) ↔
            format ∉ Format.knownIds ∨ format ∈ Format.loweringIds ∧ solution.DividesByZero)
        ∧ (format ∉ Format.knownIds →
            (∃ ids, result = .error (.format (.unsupportedFormat format ids)))
            ∧ Failed record 2 start run)
        ∧ (format ∈ Format.loweringIds → solution.DividesByZero →
            (∃ expr, result = .error (.format (.divisionByZero expr)))
            ∧ Failed record 1 start run)
        ∧ (format = "dot" ∨ format = "json" → ∃ text, result = .ok text)) := by
  intro start run front format result
  refine ⟨?_, run_of_rejected h, ?_, ?_⟩
  · intro args hargs
    unfold runInMemory
    rw [hargs]
    rfl
  · intro solution hsolution hemit
    have hrun := run_of_solution h hsolution
    unfold artifact at hrun
    rw [hemit] at hrun
    exact hrun
  · intro solution hsolution hemit
    set options : CompileOptions := ⟨s.elementBytes, !s.noSharing⟩
    -- what remains is how compiling ends, of which the run knows nothing more
    obtain ⟨hok, herror⟩ := run_of_compile h hsolution hemit
    have hsolution : (Source.compileSource source options.elementBytes none).solution?
        = some solution := hsolution
    refine ⟨hok, compile_error_iff hsolution, ?_, ?_, compile_fixed hsolution⟩
    · intro hunknown
      obtain ⟨ids, hresult⟩ := compile_unknown hsolution hunknown
      exact ⟨⟨ids, hresult⟩, herror _ hresult⟩
    · intro hlowers hzero
      obtain ⟨expr, hresult⟩ := compile_divides hsolution hlowers hzero
      exact ⟨⟨expr, hresult⟩, herror _ hresult⟩

/-- A run with a format that is not known, an old output file and a record. -/
def unknownFormat : Settings :=
  ⟨some "a", some "sse", some "o", none, false, none, some "d", false, false⟩

/-- A source and an old output file. -/
def oldOutput : FileTree :=
  ⟨[(["a"], .file "solution s;".toUTF8.toList), (["o"], .file [1])]⟩

/-- The run exits with 2, and the output file is as it was. -/
theorem run_all_or_nothing_unknownFormat :
    Ready unknownFormat oldOutput "a" "solution s;" (some ["o"]) (some ["d"])
      ∧ Failed (some ["d"]) 2 ⟨oldOutput, "", ""⟩
          ((runRequest World.platform (.run unknownFormat)).run ⟨oldOutput, "", ""⟩) := by
  have hready : Ready unknownFormat oldOutput "a" "solution s;" (some ["o"]) (some ["d"]) := by
    refine ⟨rfl, rfl, ?_, ?_, ?_, by simp⟩
    · cbv
    · cbv
    · cbv
  refine ⟨hready, ?_⟩
  obtain ⟨_, _, _, hcode⟩ := run_all_or_nothing _ _ _ _ _ _ hready
  obtain ⟨solution, hsolution⟩ := Option.isSome_iff_exists.mp
    (show (Source.compileSource "solution s;" none none).solution?.isSome = true by decide +kernel)
  obtain ⟨_, _, hunknown, _⟩ := hcode solution hsolution rfl
  exact (hunknown (by decide)).2

end Stencil.Command
