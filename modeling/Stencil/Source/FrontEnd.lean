import Stencil.Source.Elaboration

/-!
# The front end

From a source text to the solution that it describes: scanning, parsing, elaboration, and an element
width that may be asked for from outside. Problems of scanning and parsing are reported together;
only a text without them is elaborated.
-/

namespace Stencil.Source

/-- What a text was parsed as: a program unless there is a syntax error, and what was found. -/
structure Parsed where
  program? : Option Program
  findings : List Finding

/-- Stray characters are set aside and reported, and the rest is parsed. -/
def parseText (source : String) : Parsed :=
  let length := source.utf8ByteSize
  let found := scan source
  let strays := found.strays.map fun s => ⟨.stray s, s.span⟩
  match parse length found.lexemes with
  | .ok program => ⟨some program, strays⟩
  | .error e => ⟨none, strays ++ [⟨.unexpected e, e.span length⟩]⟩

/-- The draft of a solution, if there is one, what was found, and the record of the changes. -/
structure Outcome where
  draft? : Option Draft
  findings : List Finding
  log : Option Sink

namespace Outcome

def solution? (o : Outcome) : Option Solution := o.draft?.map Draft.solution

def diagnostics (o : Outcome) : List Diagnostic := o.findings.map Finding.diagnostic

end Outcome

/-- The outcome of elaboration. -/
def Scope.outcome (σ : Scope) : Outcome := ⟨σ.draft?, σ.findings, σ.draft.log⟩

/-- Replaces the element width of a solution. A width that is not supported is reported for the
    whole program. -/
def Outcome.override (o : Outcome) (span : Span) (elementBytes : Option Nat) : Outcome :=
  match o.draft?, elementBytes with
  | some draft, some bytes =>
    match draft.setElementBytes bytes with
    | (.ok (), draft') => { o with draft? := some draft' }
    | (.error e, _) => ⟨none, o.findings ++ [⟨.unsupportedOverride e, span⟩], o.log⟩
  | _, _ => o

/-- **The front end**, with an element width that replaces the source's, and a sink for the record
    of the changes. -/
def compileSource (source : String) (elementBytes : Option Nat) (log : Option Sink) : Outcome :=
  let parsed := parseText source
  match parsed.program?, parsed.findings with
  | some program, [] => ((program.elaborate log).outcome).override program.span elementBytes
  | _, findings => ⟨none, findings, log⟩

end Stencil.Source
