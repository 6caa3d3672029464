import LetLang.Session.Options

/-!
# `LetLang.Main` — the session at a terminal

The outer layer: it reads lines from standard input as they come, and writes prompts and answers to
standard output. Everything it writes there is decided by `transcript`; the journal of a line goes to
standard error, as far as the level asks for it.
-/

namespace LetLang

/-- Shows the log of a line, as far as the level asks for it. -/
def showJournal (options : Options) (line : String) : IO Unit :=
  match options.mode with
  | .tokens => pure ()
  | .tree =>
    for (level, message) in (parse line).2.log options.level do
      IO.eprintln (level.name ++ " " ++ message)

/-- Splits off the first line, with its line feed, of what has been read so far. -/
def splitLine? (pending : List UInt8) : Option (List UInt8 × List UInt8) :=
  match pending.dropWhile (· ≠ lineFeed) with
  | [] => none
  | feed :: rest => some (pending.takeWhile (· ≠ lineFeed) ++ [feed], rest)

/-- Reads until a whole line is pending or the input ends. The line comes with its line feed. -/
partial def readLine (stdin : IO.FS.Stream) (pending : List UInt8) :
    IO (List UInt8 × List UInt8) := do
  match splitLine? pending with
  | some split => pure split
  | none =>
    let chunk ← stdin.read 65536
    if chunk.isEmpty then pure (pending, [])
    else readLine stdin (pending ++ chunk.data.toList)

/-- Answers lines until the input ends or a line is no text. -/
partial def converse (options : Options) (stdin stdout : IO.FS.Stream) (pending : List UInt8) :
    IO UInt32 := do
  stdout.putStr prompt
  stdout.flush
  let (input, pending) ← readLine stdin pending
  match lines input with
  | [] =>
    stdout.putStr "\n"
    stdout.flush
    pure exitDone.toUInt32
  | line :: _ =>
    match Text.ofUtf8? line with
    | none => pure exitBadLine.toUInt32
    | some text =>
      showJournal options text
      stdout.putStr (answer options.mode text)
      converse options stdin stdout pending

end LetLang

/-- The command: reads the options, then answers lines until the input ends. -/
def main (arguments : List String) : IO UInt32 := do
  match LetLang.Options.read? arguments with
  | none =>
    IO.eprintln "usage: [--mode ast|tokens] [--log-level off|error|warn|info|debug|trace]"
    pure LetLang.exitBadOptions.toUInt32
  | some options => LetLang.converse options (← IO.getStdin) (← IO.getStdout) []
