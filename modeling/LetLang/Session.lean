import LetLang.Parser.Statement

/-!
# `LetLang.Session` — an interactive session

A session prompts for a line, answers it, and prompts again until the input ends. Lines are answered one
by one: nothing said about a line depends on another.

## Contents
- `Mode`: whether lines are answered with their tokens or with their program.
- `answer`: the answer to one line.
- `lines`: the lines of an input.
- `Transcript`, `transcript`: all that a session writes, and how it ends.
-/

namespace LetLang

/-! ## Answers -/

/-- What a session shows for a line. -/
inductive Mode where
  | tokens
  | tree
  deriving DecidableEq, Repr

/-- The tokens of a line, one a line. -/
def tokensAnswer (line : String) : String :=
  String.join ((Cursor.ofString line).tokens.map fun token => token.brief ++ "\n")

/-- A diagnostic with its name and message on one line and the advice, if any, on the next. -/
def Diagnostic.render (d : Diagnostic) : String :=
  "Error: " ++ d.name ++ ": " ++ d.message ++ "\n" ++
    match d.tip with
    | .none => ""
    | .suggestion text => "  | " ++ text ++ "\n"

/-- The text of the program that a line is, or its diagnostics if there are any. -/
def treeAnswer (line : String) : String :=
  let read := parse line
  if read.2.diagnostics.isEmpty then read.1.render ++ "\n"
  else String.join (read.2.diagnostics.toList.map Diagnostic.render)

/-- The answer to a line. -/
def answer : Mode → String → String
  | .tokens => tokensAnswer
  | .tree => treeAnswer

/-! ## Lines -/

/-- The line feed, which ends a line. -/
def lineFeed : UInt8 := 0x0a

/-- A line without the carriage return in front of its line feed. -/
def dropReturn (line : List UInt8) : List UInt8 :=
  if line.getLast? = some 0x0d then line.dropLast else line

/-- The lines of an input. A line ends at a line feed, which may have a carriage return in front of it;
    what is left behind the last line feed is a line of its own unless it is empty. -/
def lines (input : List UInt8) : List (List UInt8) :=
  match _hrest : input.dropWhile (· ≠ lineFeed) with
  | [] => if input = [] then [] else [input]
  | _ :: rest => dropReturn (input.takeWhile (· ≠ lineFeed)) :: lines rest
termination_by input.length
decreasing_by
  have hle := (List.dropWhile_suffix (p := (· ≠ lineFeed)) (l := input)).length_le
  rw [_hrest, List.length_cons] at hle
  omega

/-! ## Transcripts -/

/-- What a session writes, and its exit code. -/
structure Transcript where
  output : String
  exitCode : Nat
  deriving DecidableEq, Repr

/-- What is written in front of every line. -/
def prompt : String := ">> "

/-- The exit code of a session that read its whole input. -/
def exitDone : Nat := 0

/-- The exit code of a session that met a line which is no text. -/
def exitBadLine : Nat := 1

/-- The exit code of a session that was asked for something unknown. -/
def exitBadOptions : Nat := 2

/-- The transcript over some lines. A line that is not valid UTF-8 ends the session at its prompt. -/
def transcriptOver (mode : Mode) : List (List UInt8) → Transcript
  | [] => ⟨prompt ++ "\n", exitDone⟩
  | line :: rest =>
    match Text.ofUtf8? line with
    | none => ⟨prompt, exitBadLine⟩
    | some text =>
      let more := transcriptOver mode rest
      ⟨prompt ++ answer mode text ++ more.output, more.exitCode⟩

/-- The transcript of a session over an input. -/
def transcript (mode : Mode) (input : List UInt8) : Transcript :=
  transcriptOver mode (lines input)

end LetLang
