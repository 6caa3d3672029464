import LetLang.Proofs.Run

/-!
# `LetLang.Proofs.Attempts` — the runs of the statement rules and of the program loop

An attempt at a statement calls the rule for expressions at most once, and the program loop makes one
attempt after another. As for expressions, a relation has one constructor for each way in which that can
go.

## Contents
- `Parser.Attempt`, `Parser.attempt_statement`: an attempt by a rule, and the one that a parser makes.
- `Attempt.dialect_eq`, `Attempt.accounts`, `Attempt.onward`: as for expressions.
- `Parser.Loop`, `Parser.loop_statements`: all attempts up to the end of the source.
- `Loop.exists_diagnostics`, `Loop.diagnostics_ne`: the loop only adds diagnostics, and a failed attempt
  adds one.
-/

namespace LetLang

namespace Parser

/-! ## One attempt -/

/-- `Attempt rule s result t`: made at the state `s`, an attempt by `rule` gives `result` and the state
    `t`. -/
inductive Attempt : StatementRule → Parser → Option Stmt → Parser → Prop where
  | bindNoName {s} (hname : s.peek.kind ≠ .ident) :
      Attempt .bind s none (s.report (.unexpectedToken .ident s.peek.kind))
  | bindNoSign {s} (hname : s.peek.kind = .ident) (hsign : s.advance.peek.kind ≠ .assign) :
      Attempt .bind s none
        (s.advance.report (.unexpectedToken .assign s.advance.peek.kind))
  | bindFails {s t} (hname : s.peek.kind = .ident) (hsign : s.advance.peek.kind = .assign)
      (h : Run (.expression .lowest) s.advance.advance.advance none t) : Attempt .bind s none t
  | bind {s t value} (hname : s.peek.kind = .ident) (hsign : s.advance.peek.kind = .assign)
      (h : Run (.expression .lowest) s.advance.advance.advance (some value) t) :
      Attempt .bind s (some (.bind s.current ⟨s.peek, s.peek.text⟩ value)) t.skipSemicolon
  | retFails {s t} (h : Run (.expression .lowest) s.advance none t) : Attempt .ret s none t
  | ret {s t value} (h : Run (.expression .lowest) s.advance (some value) t) :
      Attempt .ret s (some (.ret s.current value)) t.skipSemicolon
  | exprFails {s t} (h : Run (.expression .lowest) s none t) : Attempt .expr s none t
  | expr {s t value} (h : Run (.expression .lowest) s (some value) t) :
      Attempt .expr s (some (.expr s.current value)) t.skipSemicolon

theorem expect_of_eq {s : Parser} {kind : Kind} (h : s.peek.kind = kind) :
    s.expect kind = (some s.peek, s.advance) := if_pos h

theorem expect_of_ne {s : Parser} {kind : Kind} (h : s.peek.kind ≠ kind) :
    s.expect kind = (none, s.report (.unexpectedToken kind s.peek.kind)) := if_neg h

/-- **Every attempt goes in one of these ways.** -/
theorem attempt_statementBy (rule : StatementRule) (s : Parser) :
    Attempt rule s (s.statementBy rule).1 (s.statementBy rule).2 := by
  cases rule with
  | bind =>
      -- The name and the sign are checked before the parser comes to them.
      show Attempt .bind s s.bindStatement.1 s.bindStatement.2
      by_cases hname : s.peek.kind = .ident
      · by_cases hsign : s.advance.peek.kind = .assign
        · have hrun := run_expression .lowest s.advance.advance.advance
          unfold bindStatement value
          rw [expect_of_eq hname]
          dsimp only
          rw [expect_of_eq hsign]
          dsimp only
          generalize s.advance.advance.advance.expression .lowest = r at hrun ⊢
          obtain ⟨result, t⟩ := r
          cases result with
          | none => exact .bindFails hname hsign hrun
          | some value => exact .bind hname hsign hrun
        · unfold bindStatement
          rw [expect_of_eq hname]
          dsimp only
          rw [expect_of_ne hsign]
          exact .bindNoSign hname hsign
      · unfold bindStatement
        rw [expect_of_ne hname]
        exact .bindNoName hname
  | ret =>
      show Attempt .ret s s.retStatement.1 s.retStatement.2
      have hrun := run_expression .lowest s.advance
      unfold retStatement value
      generalize s.advance.expression .lowest = r at hrun ⊢
      obtain ⟨result, t⟩ := r
      cases result with
      | none => exact .retFails hrun
      | some value => exact .ret hrun
  | expr =>
      show Attempt .expr s s.exprStatement.1 s.exprStatement.2
      have hrun := run_expression .lowest s
      unfold exprStatement value
      generalize s.expression .lowest = r at hrun ⊢
      obtain ⟨result, t⟩ := r
      cases result with
      | none => exact .exprFails hrun
      | some value => exact .expr hrun

section

variable {rule : StatementRule} {s t : Parser} {result : Option Stmt}

theorem dialect_skipSemicolon (s : Parser) : s.skipSemicolon.dialect = s.dialect := by
  unfold skipSemicolon
  split <;> rfl

theorem diagnostics_skipSemicolon (s : Parser) :
    s.skipSemicolon.diagnostics = s.diagnostics := by
  unfold skipSemicolon
  split <;> rfl

theorem onward_skipSemicolon (s : Parser) : s.Onward s.skipSemicolon := by
  unfold skipSemicolon
  split
  · exact onward_advance s
  · exact Onward.refl s

theorem Attempt.dialect_eq (h : Attempt rule s result t) : t.dialect = s.dialect := by
  cases h with
  | bindNoName | bindNoSign => rfl
  | bindFails _ _ h | retFails h | exprFails h => exact h.dialect_eq
  | bind _ _ h | ret h | expr h => exact (dialect_skipSemicolon _).trans h.dialect_eq

/-- **An attempt that gives a statement records nothing, and one that fails records one diagnostic.** -/
theorem Attempt.accounts (h : Attempt rule s result t) : s.Accounts result t := by
  cases h with
  | bindNoName | bindNoSign => exact ⟨_, rfl⟩
  | bindFails _ _ h | retFails h | exprFails h => exact h.accounts
  | bind _ _ h | ret h | expr h => exact (diagnostics_skipSemicolon _).trans h.accounts

theorem Attempt.onward (h : Attempt rule s result t) : s.Onward t := by
  have hadvance := onward_advance
  cases h with
  | bindNoName => exact onward_report s _
  | bindNoSign => exact (hadvance s).trans (onward_report _ _)
  | bindFails _ _ h => exact (((hadvance _).trans (hadvance _)).trans (hadvance _)).trans h.onward
  | bind _ _ h =>
      exact ((((hadvance _).trans (hadvance _)).trans (hadvance _)).trans h.onward).trans
        (onward_skipSemicolon _)
  | retFails h => exact (hadvance _).trans h.onward
  | ret h => exact ((hadvance _).trans h.onward).trans (onward_skipSemicolon _)
  | exprFails h => exact h.onward
  | expr h => exact h.onward.trans (onward_skipSemicolon _)

end

/-- The rule that the dialect has for the current token. -/
def rule (s : Parser) : StatementRule := (s.dialect.statement s.current.kind).getD .expr

/-- An attempt begins with a note of it in the journal. -/
theorem attempt_statement (s : Parser) :
    Attempt s.rule (s.note (.statement s.current.kind)) s.statement.1 s.statement.2 :=
  attempt_statementBy s.rule _

/-! ## All attempts -/

/-- `Loop s stmts t`: from the state `s` on, the attempts up to the end of the source give `stmts` and
    the state `t`. -/
inductive Loop : Parser → List Stmt → Parser → Prop where
  | done {s} (h : s.current.kind = .eof) : Loop s [] s
  | step {s t u result stmts} (h : s.current.kind ≠ .eof)
      (hattempt : Attempt s.rule (s.note (.statement s.current.kind)) result t)
      (hloop : Loop t.advance stmts u) : Loop s (result.toList ++ stmts) u

/-- Behind an attempt there is less to do. -/
theorem todo_next_lt {s : Parser} (h : s.current.kind ≠ .eof) :
    s.statement.2.advance.todo < s.todo := by
  have hattempt := s.ahead_statement_le
  have hadvance := s.statement.2.todo_advance_le
  have htodo : s.todo = s.ahead + 1 := by rw [todo, if_neg h]
  omega

/-- **The program loop goes in one of these ways.** -/
theorem loop_statements (s : Parser) : Loop s s.statements.1 s.statements.2 := by
  rw [statements]
  split
  · next h => exact .done h
  · next h => exact .step h s.attempt_statement s.statement.2.advance.loop_statements
termination_by s.todo
decreasing_by exact todo_next_lt ‹_›

section

variable {s t : Parser} {stmts : List Stmt}

/-- The loop records diagnostics behind those there are, and none is taken away. -/
theorem Loop.exists_diagnostics (h : Loop s stmts t) :
    ∃ ds : Array Diagnostic, t.diagnostics = s.diagnostics ++ ds := by
  induction h with
  | done => exact ⟨#[], (Array.append_empty).symm⟩
  | @step s t u result stmts _ hattempt _ ih =>
      obtain ⟨ds, hds⟩ := ih
      have haccounts := hattempt.accounts
      cases result with
      | some stmt => exact ⟨ds, by rw [hds]; exact congrArg (· ++ ds) haccounts⟩
      | none =>
          -- The diagnostic of the failed attempt comes before those of the later ones.
          obtain ⟨d, hd⟩ := haccounts
          refine ⟨#[d] ++ ds, ?_⟩
          rw [hds, ← Array.append_assoc]
          exact congrArg (· ++ ds) hd

/-- The diagnostic of a failed attempt is still there at the end. -/
theorem Loop.diagnostics_ne {u : Parser} (h : Loop t.advance stmts u)
    (hfails : s.Accounts (none : Option Stmt) t) : u.diagnostics ≠ s.diagnostics := by
  intro hsame
  obtain ⟨ds, hds⟩ := h.exists_diagnostics
  obtain ⟨d, hd⟩ := hfails
  have hsize := congrArg Array.size (hds.symm.trans hsame)
  have hpush : t.advance.diagnostics.size = s.diagnostics.size + 1 :=
    (congrArg Array.size hd).trans (Array.size_push _)
  rw [Array.size_append] at hsize
  omega

end

end Parser

end LetLang
