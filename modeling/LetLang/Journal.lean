import LetLang.Diagnostic
import LetLang.Power
import LetLang.Text.Decimal

/-!
# `LetLang.Journal` — the events of a run

Scanner and parser keep a journal of what they do. An event is recorded with its data; its level and
its wording are read off afterwards, so a journal can be filtered and rendered in any way.

## Contents
- `Level`: how detailed a message is, with its name, the level of a given name, and `Level.shows`.
- `Event`, with `Event.level`, `Event.message` and `Event.line`.
-/

namespace LetLang

/-! ## Levels -/

/-- How detailed a message is, from none at all to the finest. -/
inductive Level where
  | off
  | error
  | warn
  | info
  | debug
  | trace
  deriving DecidableEq, Repr

namespace Level

/-- The name of a level. -/
def name : Level → String
  | off => "OFF"
  | error => "ERROR"
  | warn => "WARN"
  | info => "INFO"
  | debug => "DEBUG"
  | trace => "TRACE"

/-- Every level, the quietest first. -/
def all : List Level := [off, error, warn, info, debug, trace]

/-- The level with a given name, in any mixture of capital and small letters. -/
def ofName? (name : String) : Option Level :=
  all.find? fun level => level.name.toList = name.toList.map Char.toUpper

/-- The place of a level in the order from quiet to detailed. -/
def rank : Level → Nat
  | off => 0
  | error => 1
  | warn => 2
  | info => 3
  | debug => 4
  | trace => 5

/-- Does a journal kept at level `limit` show messages of level `level`? -/
def shows (limit level : Level) : Bool :=
  level.rank ≤ limit.rank

end Level

/-! ## Events -/

/-- Something that the scanner or the parser did. -/
inductive Event where
  /-- The scanner met a byte that starts no token. -/
  | illegalByte (byte : UInt8) (offset : Nat)
  /-- The parser moved on to this token. -/
  | advanced (token : Token)
  /-- The parser started on a statement at a token of this kind. -/
  | statement (kind : Kind)
  /-- The parser took an operator between two operands, with the power it binds by. -/
  | operator (kind : Kind) (power : Power)
  /-- The parser recorded a diagnostic. -/
  | syntaxError (diagnostic : Diagnostic)
  /-- The parser came to the end, with so many statements and so many diagnostics. -/
  | finished (statements diagnostics : Nat)
  deriving DecidableEq, Repr

/-- A byte in hexadecimal, always two digits. -/
def hexByte (byte : UInt8) : String :=
  String.ofList ['0', 'x', Nat.digitChar (byte.toNat / 16), Nat.digitChar (byte.toNat % 16)]

namespace Event

/-- The level of an event: failures and the summary are coarse, single steps are fine. -/
def level : Event → Level
  | syntaxError _ | finished _ _ => .debug
  | illegalByte _ _ | advanced _ | statement _ | operator _ _ => .trace

/-- The message of an event. -/
def message : Event → String
  | illegalByte byte offset =>
    "illegal byte " ++ hexByte byte ++ " at offset " ++ Text.decimal offset
  | advanced token => "advanced to " ++ token.render
  | statement kind => "statement starting at " ++ kind.name
  | operator kind power => "infix " ++ kind.name ++ " at " ++ power.name
  | syntaxError diagnostic => "syntax error: " ++ diagnostic.message
  | finished statements diagnostics =>
    "parsed program: " ++ Text.decimal statements ++ " statements, " ++
      Text.decimal diagnostics ++ " errors"

/-- What the log shows of an event. -/
def line (event : Event) : Level × String := (event.level, event.message)

end Event

end LetLang
