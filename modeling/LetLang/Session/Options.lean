import LetLang.Session

/-!
# `LetLang.Session.Options` — the command line of a session

Two options exist, each of which may be given once: `--mode` chooses how lines are answered, and
`--log-level` how much of the journal is shown beside the answers. A value follows its option, either as
the next argument or behind an equals sign. A lone `--` may stand at the end.

## Contents
- `Options`, `Options.read?`: the options of a session, read from its arguments.
- `runSession`: a session from its arguments and its input.
-/

namespace LetLang

/-- The mode with a given name. -/
def Mode.ofName? : String → Option Mode
  | "tokens" => some .tokens
  | "ast" => some .tree
  | _ => none

/-- The options given so far. -/
structure Options where
  mode? : Option Mode
  level? : Option Level
  deriving DecidableEq, Repr

namespace Options

/-- The options before any argument has been read. -/
def unset : Options := ⟨none, none⟩

/-- The mode of a session: programs are shown unless tokens are asked for. -/
def mode (options : Options) : Mode := options.mode?.getD .tree

/-- The level of the journal. Unless more is asked for, only warnings are shown, and a session has
    none. -/
def level (options : Options) : Level := options.level?.getD .warn

/-- Gives an option its value. An option that has one already, an unknown option and an unknown value
    are refused. -/
def set? (options : Options) (option value : String) : Option Options :=
  if option = "--mode" ∧ options.mode? = none then
    (Mode.ofName? value).map fun mode => { options with mode? := some mode }
  else if option = "--log-level" ∧ options.level? = none then
    (Level.ofName? value).map fun level => { options with level? := some level }
  else none

/-- An argument cut at its first equals sign, if it has one. -/
def cut (argument : String) : String × Option String :=
  match argument.toList.span (· ≠ '=') with
  | (option, []) => (String.ofList option, none)
  | (option, _ :: value) => (String.ofList option, some (String.ofList value))

/-- Reads arguments on top of the options given so far. -/
def readFrom? (options : Options) : List String → Option Options
  | [] => some options
  | ["--"] => some options
  | argument :: rest =>
    match cut argument, rest with
    | (option, some value), rest =>
      (options.set? option value).bind fun options => options.readFrom? rest
    | (option, none), value :: rest =>
      (options.set? option value).bind fun options => options.readFrom? rest
    | (_, none), [] => none

/-- Reads the arguments of a session. -/
def read? (arguments : List String) : Option Options := unset.readFrom? arguments

end Options

/-- A session from its arguments and its input. Arguments that cannot be read end it at once. -/
def runSession (arguments : List String) (input : List UInt8) : Transcript :=
  match Options.read? arguments with
  | none => ⟨"", exitBadOptions⟩
  | some options => transcript options.mode input

end LetLang
