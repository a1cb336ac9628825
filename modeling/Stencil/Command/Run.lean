import Stencil.Command.Arguments
import Stencil.Command.FileTree
import Stencil.Compile

/-!
# Runs of the command line

A run reads the source, opens the file for the record of the changes, compiles, and writes the
artifact last: a run that fails earlier leaves an existing artifact as it is. Exit codes are 0 for
success, 1 for problems in the source or the solution, 2 for files, formats and arguments.

What a run needs from its surroundings is a `Platform`, so that the same run works on real files and
on a tree of files in memory (`World`).
-/

namespace Stencil.Command

/-! ## Surroundings -/

/-- Files and streams. A handle writes to a file from where it wrote last. -/
structure Platform (m : Type → Type) where
  Handle : Type
  /-- The content of a file. -/
  read : String → m (Except IoFault String)
  /-- Makes a file empty, or a new one. -/
  create : String → m (Except IoFault Handle)
  write : Handle → String → m Handle
  print : String → m Unit
  printError : String → m Unit

/-! ## The record of the changes -/

/-- How many bytes the record's buffer holds. -/
def bufferSize : Nat := 8192

/-- How many bytes are still in the buffer after writes of the given lengths. The buffer is emptied
    when a write does not fit, and a write as long as the buffer goes past it. -/
def buffered (held : Nat) : List Nat → Nat
  | [] => held
  | n :: ns =>
    let held := if bufferSize < held + n then 0 else held
    if bufferSize ≤ n then buffered 0 ns else buffered (held + n) ns

/-- The lengths of the writes that make up a record: a line and its end. -/
def writeLengths (record : String) : List Nat :=
  ((record.splitOn "\n").dropLast).flatMap fun line => [line.utf8ByteSize, 1]

/-- A record as what has been written when the artifact is, and what follows when the run ends. -/
def splitRecord (record : String) : String × String :=
  let early := record.length - buffered 0 (writeLengths record)
  (String.ofList (record.toList.take early), String.ofList (record.toList.drop early))

/-! ## Runs -/

/-- The exit code of a refusal. -/
def exitCode : Error → Nat
  | .io _ _ => 2
  | .unsupportedFormat _ _ => 2
  | _ => 1

/-- The text in a field of at least the given width. -/
def padRight (s : String) (width : Nat) : String :=
  s ++ String.ofList (List.replicate (width - s.length) ' ')

/-- The formats, one a line. -/
def formatList : String :=
  unlines ((Registry.builtin true).formats.map fun f => padRight f.id 8 ++ " " ++ f.description)

/-- The line of a diagnostic. -/
def diagnosticLine (path source : String) (d : Source.Diagnostic) : String :=
  let p := (Source.position? source d.span.start).getD .origin
  s!"stencilc: {path}:{p.line}:{p.column}: {d.text}\n"

/-- The line of a refusal. -/
def errorLine (e : Error) : String := s!"stencilc: error: {e.message}\n"

def versionLine : String := s!"stencilc {version}\n"

def usage : String := "usage: stencilc [OPTIONS] SOURCE\n"

/-- The artifact of a draft, and the draft with the record of its making. -/
def artifact (s : Settings) (source : String) (d : Draft) : Except Error String × Draft :=
  match s.emit.getD .code with
  | .buildInfo => (.ok (d.solution.provenance source), d)
  | .code => d.render (.builtin (!s.noSharing)) (s.format.getD "cpp")

section

variable {m : Type → Type} [Monad m]

/-- Writes an artifact to its file, or prints it. -/
def writeArtifact (π : Platform m) (output : Option String) (text : String) :
    m (Except Error Unit) := do
  match output with
  | none =>
    π.print text
    return .ok ()
  | some path =>
    match ← π.create path with
    | .error e => return .error (.io path e)
    | .ok h =>
      let _ ← π.write h text
      return .ok ()

/-- Writes to the file of the record, if there is one. -/
def writeRecord (π : Platform m) (log : Option π.Handle) (text : String) : m (Option π.Handle) := do
  match log with
  | none => return none
  | some h => return some (← π.write h text)

/-- The run from the solution on. -/
def emitArtifact (π : Platform m) (s : Settings) (source : String) (log : Option π.Handle)
    (d : Draft) : m Nat := do
  let (result, d) := artifact s source d
  let (early, late) := splitRecord ((d.log.map Sink.text).getD "")
  let log ← writeRecord π log early
  let result ← match result with
    | .ok text => writeArtifact π s.output text
    | .error e => pure (.error e)
  let _ ← writeRecord π log late
  match result with
  | .ok () => return 0
  | .error e =>
    π.printError (errorLine e)
    return exitCode e

/-- The run from the source's text on. -/
def compileText (π : Platform m) (s : Settings) (path source : String)
    (log : Option π.Handle) : m Nat := do
  let outcome := Source.compileSource source s.elementBytes (log.map fun _ => .empty none)
  π.printError (String.join (outcome.diagnostics.map (diagnosticLine path source)))
  match outcome.draft? with
  | some d => emitArtifact π s source log d
  | none =>
    let _ ← writeRecord π log ((outcome.log.map Sink.text).getD "")
    return 1

/-- Opens the file of the record, if one is asked for. -/
def openRecord (π : Platform m) (path : Option String) :
    m (Except Error (Option π.Handle)) := do
  match path with
  | none => return .ok none
  | some p =>
    match ← π.create p with
    | .ok h => return .ok (some h)
    | .error e => return .error (.io p e)

/-- The run of a compilation. -/
def compileFile (π : Platform m) (s : Settings) (path : String) : m Nat := do
  match ← π.read path with
  | .error e =>
    π.printError (errorLine (.io path e))
    return 2
  | .ok source =>
    match ← openRecord π s.debugOutput with
    | .error e =>
      π.printError (errorLine e)
      return 2
    | .ok log => compileText π s path source log

/-- **The run** of a request, with its exit code. -/
def runRequest (π : Platform m) : Request → m Nat
  | .version => do
    π.print versionLine
    return 0
  | .help => do
    π.print usage
    return 0
  | .run s => do
    if s.listFormats then
      π.print formatList
      return 0
    else
      match s.source with
      | some path => compileFile π s path
      | none =>
        π.printError "stencilc: error: no source file given\n"
        return 2

end

/-! ## Runs in memory -/

/-- Files in memory and what has been printed. -/
structure World where
  files : FileTree
  stdout : String
  stderr : String
  deriving DecidableEq

namespace World

/-- A file and where the next write to it goes. -/
structure Cursor where
  path : Path
  position : Nat

/-- The text of a file. -/
def readText (path : String) : StateM World (Except IoFault String) := do
  match (← get).files.read path with
  | .error e => return .error e
  | .ok bytes =>
    match String.fromUTF8? (ByteArray.mk bytes.toArray) with
    | some s => return .ok s
    | none => return .error .notText

def create (path : String) : StateM World (Except IoFault Cursor) := do
  let w ← get
  match w.files.writable path with
  | .error e => return .error e
  | .ok p =>
    set { w with files := w.files.setFile p [] }
    return .ok ⟨p, 0⟩

def write (c : Cursor) (text : String) : StateM World Cursor := do
  let bytes := text.toUTF8.toList
  modify fun w =>
    { w with files :=
        w.files.setFile c.path (FileTree.overwrite (w.files.bytes c.path) c.position bytes) }
  return { c with position := c.position + bytes.length }

/-- A tree of files in memory as the surroundings of a run. -/
def platform : Platform (StateM World) where
  Handle := Cursor
  read := readText
  create := create
  write := write
  print text := modify fun w => { w with stdout := w.stdout ++ text }
  printError text := modify fun w => { w with stderr := w.stderr ++ text }

end World

/-- How a run in memory ended: with an exit code and a changed world, or not understood. -/
inductive Finish where
  | usageError
  | exit (code : Nat) (world : World)

/-- A run with the given arguments on a tree of files. -/
def runInMemory (args : List String) (files : FileTree) : Finish :=
  match Request.ofArgs? args with
  | none => .usageError
  | some request =>
    let (code, world) := (runRequest World.platform request).run ⟨files, "", ""⟩
    .exit code world

end Stencil.Command
