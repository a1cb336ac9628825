/-!
# Arguments of the command line

Options may stand before and after the source. An option takes its value from the next argument or
has it attached: `--format=dot`, `-fdot`, `-f=dot`. Each option is given once at most. After `--`
nothing is an option.
-/

namespace Stencil.Command

/-- What is written out. -/
inductive Emit where
  | code | buildInfo
  deriving DecidableEq, Repr

/-- What has been asked for. Options that were not given are `none`. -/
structure Settings where
  source : Option String
  format : Option String
  output : Option String
  elementBytes : Option Nat
  noSharing : Bool
  emit : Option Emit
  debugOutput : Option String
  listFormats : Bool
  verbose : Bool
  deriving DecidableEq, Repr

def Settings.none : Settings :=
  ⟨.none, .none, .none, .none, false, .none, .none, false, false⟩

/-- What a run is for. -/
inductive Request where
  | version
  | help
  | run (s : Settings)
  deriving DecidableEq, Repr

/-! ## Values -/

/-- An optional sign and digits, for a number that fits 32 bits. -/
def wordOfText? (s : String) : Option Nat :=
  let (negative, digits) := match s.toList with
    | '+' :: ds => (false, ds)
    | '-' :: ds => (true, ds)
    | ds => (false, ds)
  if digits.isEmpty || !digits.all Char.isDigit then .none
  else
    let n := digits.foldl (fun n c => 10 * n + (c.toNat - '0'.toNat)) 0
    if n < 0x100000000 && (!negative || n == 0) then some n else .none

def Emit.ofText? (s : String) : Option Emit :=
  if s = "code" then some .code
  else if s = "build-info" then some .buildInfo
  else .none

/-- A path is not empty. -/
def pathOfText? (s : String) : Option String := if s.isEmpty then .none else some s

/-! ## Options -/

/-- The options that take a value. -/
inductive ValueOption where
  | format | output | elementBytes | emit | debugOutput
  deriving DecidableEq, Repr

/-- The options that take none. -/
inductive Flag where
  | noSharing | listFormats | verbose | version | help
  deriving DecidableEq, Repr

/-- An option by its name. -/
inductive Opt where
  | value (o : ValueOption)
  | flag (f : Flag)
  deriving DecidableEq, Repr

/-- Options by their long names. -/
def longOptions : List (String × Opt) :=
  [("format", .value .format), ("output", .value .output),
   ("element-bytes", .value .elementBytes), ("emit", .value .emit),
   ("debug-output", .value .debugOutput), ("no-cse", .flag .noSharing),
   ("list-formats", .flag .listFormats), ("verbose", .flag .verbose),
   ("version", .flag .version), ("help", .flag .help)]

/-- Options by their short names. -/
def shortOptions : List (Char × Opt) :=
  [('f', .value .format), ('o', .value .output), ('V', .flag .version), ('h', .flag .help)]

/-- Gives an option that has no value yet a valid value. -/
def Settings.setValue? (s : Settings) (o : ValueOption) (value : String) : Option Settings :=
  match o with
  | .format => if s.format.isSome then .none else some { s with format := some value }
  | .output =>
    if s.output.isSome then .none
    else (pathOfText? value).map fun p => { s with output := some p }
  | .elementBytes =>
    if s.elementBytes.isSome then .none
    else (wordOfText? value).map fun n => { s with elementBytes := some n }
  | .emit =>
    if s.emit.isSome then .none
    else (Emit.ofText? value).map fun e => { s with emit := some e }
  | .debugOutput =>
    if s.debugOutput.isSome then .none
    else (pathOfText? value).map fun p => { s with debugOutput := some p }

/-- Names the source, if it has not been named. -/
def Settings.setSource? (s : Settings) (path : String) : Option Settings :=
  if s.source.isSome then .none
  else (pathOfText? path).map fun p => { s with source := some p }

/-! ## Rows of arguments -/

/-- An argument apart from the others. -/
inductive Arg where
  /-- `--`, after which nothing is an option. -/
  | separator
  /-- An option, with its value if one is attached. -/
  | option (o : Opt) (attached : Option String)
  /-- What looks like an option and is none. -/
  | unknown
  /-- Anything else. -/
  | plain (text : String)
  deriving DecidableEq, Repr

/-- The option with a long name, after its two dashes. A flag takes no value. -/
def longArg (cs : List Char) : Arg :=
  let name := String.ofList (cs.takeWhile (· != '='))
  match longOptions.lookup name, cs.dropWhile (· != '=') with
  | some o, [] => .option o .none
  | some (.value o), _ :: value => .option (.value o) (some (String.ofList value))
  | some (.flag _), _ :: _ => .unknown
  | .none, _ => .unknown

/-- The option with a short name, after its dash. What follows the name of an option is its value;
    an equals sign before the value is not part of it. A short flag ends the run, so that what
    follows it does not matter. -/
def shortArg (c : Char) (cs : List Char) : Arg :=
  match shortOptions.lookup c, cs with
  | some (.flag f), _ => .option (.flag f) .none
  | some (.value o), [] => .option (.value o) .none
  | some (.value o), '=' :: value => .option (.value o) (some (String.ofList value))
  | some (.value o), value => .option (.value o) (some (String.ofList value))
  | .none, _ => .unknown

/-- What an argument is. A dash by itself is no option. -/
def Arg.ofText (s : String) : Arg :=
  match s.toList with
  | ['-', '-'] => separator
  | '-' :: '-' :: cs => longArg cs
  | '-' :: c :: cs => shortArg c cs
  | _ => plain s

/-- What the next argument can be. -/
inductive Mode where
  /-- Anything. -/
  | free
  /-- The value of an option. -/
  | value (o : ValueOption)
  /-- Anything but an option. -/
  | plain
  deriving DecidableEq, Repr

/-- Where an argument leads: on, or to what the run is for. -/
inductive Turn where
  | on (s : Settings) (mode : Mode)
  | done (request : Request)
  deriving DecidableEq, Repr

/-- What a flag does: it is set for once, or it is all that the run is for. -/
def Settings.setFlag? (s : Settings) (f : Flag) : Option Turn :=
  match f with
  | .noSharing => if s.noSharing then .none else some (.on { s with noSharing := true } .free)
  | .listFormats => if s.listFormats then .none else some (.on { s with listFormats := true } .free)
  | .verbose => if s.verbose then .none else some (.on { s with verbose := true } .free)
  | .version => some (.done .version)
  | .help => some (.done .help)

/-- One argument, if it is understood. -/
def turn? (s : Settings) (mode : Mode) (text : String) : Option Turn :=
  match mode, Arg.ofText text with
  | .plain, _ => (s.setSource? text).map (.on · .plain)
  | .value o, .plain value => (s.setValue? o value).map (.on · .free)
  | .value _, _ => .none
  | .free, .separator => some (.on s .plain)
  | .free, .unknown => .none
  | .free, .plain path => (s.setSource? path).map (.on · .free)
  | .free, .option (.value o) .none => some (.on s (.value o))
  | .free, .option (.value o) (some value) => (s.setValue? o value).map (.on · .free)
  | .free, .option (.flag f) _ => s.setFlag? f

/-- A run needs a source, unless it lists the formats. -/
def Settings.finish? (s : Settings) (mode : Mode) : Option Request :=
  match mode with
  | .value _ => .none
  | _ => if s.source.isSome || s.listFormats then some (.run s) else .none

/-- Arguments in order. There is no request if any of them is not understood, up to the one that is
    all that the run is for. -/
def parseArgs (s : Settings) (mode : Mode) : List String → Option Request
  | [] => s.finish? mode
  | a :: rest =>
    match turn? s mode a with
    | .none => .none
    | some (.done request) => some request
    | some (.on s' mode') => parseArgs s' mode' rest

/-- **The request** that arguments make, if they are understood. -/
def Request.ofArgs? (args : List String) : Option Request := parseArgs .none .free args

end Stencil.Command
