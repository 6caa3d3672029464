import LetLang.Parser.Expression
import LetLang.Program

/-!
# `LetLang.Parser.Statement` — reading statements and programs

A statement is read from its first token on, and leaves the parser at its last one. When an attempt
fails, the parser stays at the token where it failed and the next attempt begins one token on, so one
mistake costs one statement and the rest of the source is still read.

## Contents
- `Parser.bindStatement`, `Parser.retStatement`, `Parser.exprStatement`: the three rules.
- `Parser.statement`: an attempt by the rule that the dialect has for the current token.
- `Parser.statements`, `Parser.program`: all attempts up to the end of the source.
- `parse`: a whole text in the standard dialect.
-/

namespace LetLang

namespace Parser

/-! ## The rules -/

/-- The value of a statement, from the current token on, with the semicolon that may end it. -/
def value (s : Parser) : Option Expr × Parser :=
  match s.expression .lowest with
  | (none, t) => (none, t)
  | (some value, t) => (some value, t.skipSemicolon)

/-- A binding: a name, an equals sign and a value behind the current token. -/
def bindStatement (s : Parser) : Option Stmt × Parser :=
  let first := s.current
  match s.expect .ident with
  | (none, t) => (none, t)
  | (some name, t) =>
    match t.expect .assign with
    | (none, u) => (none, u)
    | (some _, u) =>
      match u.advance.value with
      | (none, v) => (none, v)
      | (some value, v) => (some (.bind first ⟨name, name.text⟩ value), v)

/-- A return: a value behind the current token. -/
def retStatement (s : Parser) : Option Stmt × Parser :=
  let first := s.current
  match s.advance.value with
  | (none, t) => (none, t)
  | (some value, t) => (some (.ret first value), t)

/-- An expression that stands alone, from the current token on. -/
def exprStatement (s : Parser) : Option Stmt × Parser :=
  let first := s.current
  match s.value with
  | (none, t) => (none, t)
  | (some value, t) => (some (.expr first value), t)

/-- The statement that begins at the current token, read by `rule`. -/
def statementBy (rule : StatementRule) (s : Parser) : Option Stmt × Parser :=
  match rule with
  | .bind => s.bindStatement
  | .ret => s.retStatement
  | .expr => s.exprStatement

/-- An attempt at a statement, from the current token on. -/
def statement (s : Parser) : Option Stmt × Parser :=
  let kind := s.current.kind
  let rule := (s.dialect.statement kind).getD .expr
  (s.note (.statement kind)).statementBy rule

/-! ## What lies ahead -/

theorem ahead_value_le (s : Parser) : s.value.2.ahead ≤ s.ahead := by
  have hexpr := s.ahead_expression_le .lowest
  unfold value
  split
  · next t h => rwa [h] at hexpr
  · next e t h =>
    rw [h] at hexpr
    exact Nat.le_trans t.ahead_skipSemicolon_le hexpr

theorem ahead_bindStatement_le (s : Parser) : s.bindStatement.2.ahead ≤ s.ahead := by
  have hname := s.ahead_expect_le .ident
  unfold bindStatement
  split
  · next t h => rwa [h] at hname
  · next name t h =>
    rw [h] at hname
    have hsign := t.ahead_expect_le .assign
    split
    · next u h => rw [h] at hsign; exact Nat.le_trans hsign hname
    · next sign u h =>
      rw [h] at hsign
      have hvalue := u.advance.ahead_value_le
      have hadvance := u.ahead_advance_le
      split <;> (next h => rw [h] at hvalue; dsimp only at hname hsign hvalue ⊢; omega)

theorem ahead_retStatement_le (s : Parser) : s.retStatement.2.ahead ≤ s.ahead := by
  have hvalue := s.advance.ahead_value_le
  have hadvance := s.ahead_advance_le
  unfold retStatement
  split <;> (next h => rw [h] at hvalue; exact Nat.le_trans hvalue hadvance)

theorem ahead_exprStatement_le (s : Parser) : s.exprStatement.2.ahead ≤ s.ahead := by
  have hvalue := s.ahead_value_le
  unfold exprStatement
  split <;> (next h => rw [h] at hvalue; exact hvalue)

theorem ahead_statementBy_le (rule : StatementRule) (s : Parser) :
    (s.statementBy rule).2.ahead ≤ s.ahead := by
  cases rule with
  | bind => exact s.ahead_bindStatement_le
  | ret => exact s.ahead_retStatement_le
  | expr => exact s.ahead_exprStatement_le

theorem ahead_statement_le (s : Parser) : s.statement.2.ahead ≤ s.ahead :=
  ahead_statementBy_le _ (s.note (.statement s.current.kind))

/-! ## Programs -/

/-- Attempts statements until the end of the input, one token on after each. Those that succeed are
    given in order. -/
def statements (s : Parser) : List Stmt × Parser :=
  if s.current.kind = .eof then ([], s)
  else
    let attempt := s.statement
    let more := attempt.2.advance.statements
    (attempt.1.toList ++ more.1, more.2)
termination_by s.todo
decreasing_by
  next h =>
    have hattempt := s.ahead_statement_le
    have hadvance := s.statement.2.todo_advance_le
    have htodo : s.todo = s.ahead + 1 := by rw [todo, if_neg h]
    omega

/-- Reads all statements up to the end of the input, and sums up the run in the journal. -/
def program (s : Parser) : Program × Parser :=
  let read := s.statements
  (⟨read.1⟩, read.2.note (.finished read.1.length read.2.diagnostics.size))

end Parser

/-- The program of a source text in the standard dialect, with the parser at its end, which holds the
    diagnostics and the journal. -/
def parse (source : String) : Program × Parser :=
  (Parser.start .standard (.ofString source)).program

end LetLang
