import Stencil.Model.Error

/-!
# Sinks

A sink takes text in and keeps it. A bounded sink takes a limited number of writes, however long,
and refuses the rest.
-/

namespace Stencil

/-- The text taken in so far, and how many writes are left if there is a limit. -/
structure Sink where
  text : String
  room : Option Nat
  deriving DecidableEq, Repr

namespace Sink

/-- An empty sink, with a limit on its writes or without. -/
def empty (room : Option Nat) : Sink := ⟨"", room⟩

/-- The sink after a write, if it is not full. -/
def write? (s : Sink) (text : String) : Option Sink :=
  match s.room with
  | none => some ⟨s.text ++ text, none⟩
  | some 0 => none
  | some (n + 1) => some ⟨s.text ++ text, some n⟩

/-- The sink after a write, or the refusal. -/
def write (s : Sink) (text : String) : Except Error Sink :=
  match s.write? text with
  | some s' => .ok s'
  | none => .error (.io "sink" .full)

/-- The sink after a line: its text, then its end. What does not fit is dropped, the end too if the
    text is. -/
def writeLine (s : Sink) (line : String) : Sink :=
  match s.write? line with
  | none => s
  | some s' => (s'.write? "\n").getD s'

/-- The sink without its text. The limit on its writes stays. -/
def discard (s : Sink) : Sink := { s with text := "" }

end Sink

end Stencil
