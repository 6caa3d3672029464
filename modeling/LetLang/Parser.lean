import LetLang.Cursor
import LetLang.Dialect
import LetLang.Journal

/-!
# `LetLang.Parser` — the state of a parse

A parser looks at two tokens at a time, the current one and the one behind it; all later tokens are
still bytes under a cursor. It keeps the diagnostics met so far and a journal of its steps.

## Contents
- `Parser`, `Parser.start`: the state, and the state in front of a source.
- `Parser.advance`, `Parser.report`, `Parser.expect`: the steps that all rules are made of.
- `Parser.log`: the lines that are shown of the journal.
- `Parser.ahead`: a bound on the tokens behind the current one. `Parser.ahead_advance_le` and
  `Parser.ahead_advance_lt` say how an advance changes it.
-/

namespace LetLang

/-- The state of a parse. -/
structure Parser where
  dialect : Dialect
  cursor : Cursor
  current : Token
  peek : Token
  diagnostics : Array Diagnostic
  journal : Array Event

namespace Parser

/-! ## Steps -/

/-- The events of reading one token: a refused byte is noted, nothing else. -/
def scanEvents (scan : Scan) : Array Event :=
  match scan.refused with
  | some (byte, offset) => #[.illegalByte byte offset]
  | none => #[]

/-- The parser for the tokens at a cursor. The first two are read at once. -/
def start (dialect : Dialect) (cursor : Cursor) : Parser :=
  let first := cursor.next
  let second := first.cursor.next
  { dialect := dialect
    cursor := second.cursor
    current := first.token
    peek := second.token
    diagnostics := #[]
    journal := scanEvents first ++ scanEvents second }

/-- Adds an event to the journal. -/
def note (s : Parser) (event : Event) : Parser :=
  { s with journal := s.journal.push event }

/-- Moves on by one token. At the end of the input the current token stays the end. -/
def advance (s : Parser) : Parser :=
  let scan := s.cursor.next
  { s with
    cursor := scan.cursor
    current := s.peek
    peek := scan.token
    journal := (s.journal ++ scanEvents scan).push (.advanced s.peek) }

/-- Records a diagnostic. -/
def report (s : Parser) (diagnostic : Diagnostic) : Parser :=
  { s with
    diagnostics := s.diagnostics.push diagnostic
    journal := s.journal.push (.syntaxError diagnostic) }

/-- Moves on if the next token is of the given kind, and gives that token. If it is not, the parser
    stays where it is and records a diagnostic. -/
def expect (s : Parser) (kind : Kind) : Option Token × Parser :=
  if s.peek.kind = kind then (some s.peek, s.advance)
  else (none, s.report (.unexpectedToken kind s.peek.kind))

/-- Moves on if the next token is a semicolon. -/
def skipSemicolon (s : Parser) : Parser :=
  if s.peek.kind = .semicolon then s.advance else s

/-- The power that the current token binds by. -/
def currentPower (s : Parser) : Power := s.dialect.powerOf s.current.kind

/-- The power that the next token binds by. -/
def peekPower (s : Parser) : Power := s.dialect.powerOf s.peek.kind

/-- The log at a level: a line for each event that the level shows, in order. -/
def log (s : Parser) (limit : Level) : List (Level × String) :=
  (s.journal.toList.filter fun event => limit.shows event.level).map Event.line

/-! ## What lies ahead -/

/-- A bound on the tokens behind the current one: the next one, and a token for each byte that has not
    been read. -/
def ahead (s : Parser) : Nat := s.peek.weight + s.cursor.rest.length

/-- A bound on the tokens from the current one on, if it is not the end. -/
def todo (s : Parser) : Nat := if s.current.kind = .eof then 0 else s.ahead + 1

/-- An advance uses up the next token. -/
theorem ahead_advance_add (s : Parser) : s.advance.ahead + s.peek.weight ≤ s.ahead := by
  have hweight := s.cursor.weight_next
  simp only [advance, ahead]
  omega

theorem ahead_advance_le (s : Parser) : s.advance.ahead ≤ s.ahead := by
  have hadd := s.ahead_advance_add
  omega

theorem ahead_advance_lt {s : Parser} (h : s.peek.kind ≠ .eof) : s.advance.ahead < s.ahead := by
  have hadd := s.ahead_advance_add
  rw [Token.weight, if_neg h] at hadd
  omega

/-- After an advance there is nothing to do, or less than lay ahead before. -/
theorem todo_advance_le (s : Parser) : s.advance.todo ≤ s.ahead := by
  unfold todo
  split
  · omega
  · next h =>
    have hlt : s.advance.ahead < s.ahead := ahead_advance_lt h
    omega

theorem ahead_expect_le (s : Parser) (kind : Kind) : (s.expect kind).2.ahead ≤ s.ahead := by
  unfold expect
  split
  · exact s.ahead_advance_le
  · exact Nat.le_refl _

theorem ahead_skipSemicolon_le (s : Parser) : s.skipSemicolon.ahead ≤ s.ahead := by
  unfold skipSemicolon
  split
  · exact s.ahead_advance_le
  · exact Nat.le_refl _

end Parser

end LetLang
