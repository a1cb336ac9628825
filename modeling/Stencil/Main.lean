import Stencil.Command.Run

/-!
# The program
-/

namespace Stencil.Command

/-- Why a system call failed. -/
def faultOf : IO.Error → IoFault
  | .noFileOrDirectory .. => .notFound
  | .inappropriateType _ code _ => if code = 21 then .isDirectory else .notDirectory
  | .invalidArgument _ _ "name too long" => .nameTooLong
  | .permissionDenied .. => .other "Permission denied (os error 13)"
  | e => .other (toString e)

/-- The text of a real file. -/
def readReal (path : String) : IO (Except IoFault String) := do
  try
    let bytes ← IO.FS.readBinFile path
    match String.fromUTF8? bytes with
    | some s => return .ok s
    | none => return .error .notText
  catch e => return .error (faultOf e)

/-- A real file, made empty. -/
def createReal (path : String) : IO (Except IoFault IO.FS.Handle) := do
  try
    return .ok (← IO.FS.Handle.mk path .write)
  catch e => return .error (faultOf e)

/-- Real files and streams as the surroundings of a run. -/
def realPlatform : Platform IO where
  Handle := IO.FS.Handle
  read := readReal
  create := createReal
  write h text := do
    h.putStr text
    h.flush
    return h
  print text := do
    (← IO.getStdout).putStr text
  printError text := do
    (← IO.getStderr).putStr text

end Stencil.Command

open Stencil.Command in
def main (args : List String) : IO UInt32 := do
  match Request.ofArgs? args with
  | none =>
    (← IO.getStderr).putStr usage
    return 2
  | some request => return (← runRequest realPlatform request).toUInt32
