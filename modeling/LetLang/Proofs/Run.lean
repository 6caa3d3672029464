import LetLang.Proofs.Window

/-!
# `LetLang.Proofs.Run` — the runs of the expression rules

The four rules call each other, and what they do is a tree of calls. `Parser.Run` describes these trees,
one constructor for each way in which a call can go; a fact about all calls is an induction on it. The
rules are functions, so every call has a run (`Parser.run_expression`), whatever the dialect.

## Contents
- `Call`, `Parser.Run`: the calls of the four rules, and how each of them goes.
- `run_expression`: a call of `Parser.expression` has a run.
- `Run.dialect_eq`, `Run.onward`: the dialect stays, and the window only moves ahead.
- `Parser.Accounts`, `Run.accounts`: a missing result has one diagnostic, and any other none.
-/

namespace LetLang

/-- A call of one of the four rules. -/
inductive Call where
  | expression (floor : Power)
  | operand (rule : OperandRule)
  | climb (floor : Power) (left : Expr)
  | join (left : Expr)

namespace Parser

/-- `Run call s result t`: made at the state `s`, the call gives `result` and the state `t`. -/
inductive Run : Call → Parser → Option Expr → Parser → Prop where
  | noOperand {floor s} (h : s.dialect.operand s.current.kind = none) :
      Run (.expression floor) s none (s.report (.noOperand s.current.kind))
  | operandFails {floor s t rule} (h : s.dialect.operand s.current.kind = some rule)
      (hoperand : Run (.operand rule) s none t) : Run (.expression floor) s none t
  | operandThen {floor s t u rule left result}
      (h : s.dialect.operand s.current.kind = some rule)
      (hoperand : Run (.operand rule) s (some left) t)
      (hclimb : Run (.climb floor left) t result u) : Run (.expression floor) s result u
  | identifier {s} : Run (.operand .identifier) s (some s.identifier) s
  | integer {s value} (h : Text.readInt64? s.current.text = some value) :
      Run (.operand .integer) s (some (.integer s.current value)) s
  | badInteger {s} (h : Text.readInt64? s.current.text = none) :
      Run (.operand .integer) s none (s.report (.badInteger s.current.text))
  | boolean {s} : Run (.operand .boolean) s (some s.boolean) s
  | unaryFails {s t} (h : Run (.expression .unary) s.advance none t) :
      Run (.operand .unary) s none t
  | unary {s t right} (h : Run (.expression .unary) s.advance (some right) t) :
      Run (.operand .unary) s (some (.unary s.current s.current.text right)) t
  | groupFails {s t} (h : Run (.expression .lowest) s.advance none t) :
      Run (.operand .group) s none t
  | group {s t inner} (h : Run (.expression .lowest) s.advance (some inner) t)
      (hclose : t.peek.kind = .closeParen) : Run (.operand .group) s (some inner) t.advance
  | groupOpen {s t inner} (h : Run (.expression .lowest) s.advance (some inner) t)
      (hopen : t.peek.kind ≠ .closeParen) :
      Run (.operand .group) s none (t.report (.unexpectedToken .closeParen t.peek.kind))
  | stop {floor s left} (h : ¬(s.continues floor = true ∧ s.dialect.joins s.peek.kind = true)) :
      Run (.climb floor left) s (some left) s
  | climbFails {floor s t left}
      (h : s.continues floor = true ∧ s.dialect.joins s.peek.kind = true)
      (hjoin : Run (.join left) s.takeOperator none t) : Run (.climb floor left) s none t
  | climb {floor s t u left joined result}
      (h : s.continues floor = true ∧ s.dialect.joins s.peek.kind = true)
      (hjoin : Run (.join left) s.takeOperator (some joined) t)
      (hclimb : Run (.climb floor joined) t result u) : Run (.climb floor left) s result u
  | joinFails {s t left} (h : Run (.expression s.currentPower) s.advance none t) :
      Run (.join left) s none t
  | join {s t left right} (h : Run (.expression s.currentPower) s.advance (some right) t) :
      Run (.join left) s (some (.binary s.current left s.current.text right)) t

/-! ## Every call has a run -/

mutual

theorem run_expression (floor : Power) (s : Parser) :
    Run (.expression floor) s (s.expression floor).1 (s.expression floor).2 := by
  rw [expression_eq]
  cases hrule : s.dialect.operand s.current.kind with
  | none => exact .noOperand hrule
  | some rule =>
      -- The climb begins where the operand ends, which is no further back than the call.
      have hoperand := run_operand rule s
      have hahead := s.ahead_operand_le rule
      dsimp only
      generalize s.operand rule = r at hoperand hahead ⊢
      obtain ⟨result, t⟩ := r
      cases result with
      | none => exact .operandFails hrule hoperand
      | some left => exact .operandThen hrule hoperand (run_climb floor left t)
termination_by 2 * s.todo
decreasing_by
  all_goals
    rw [todo, if_neg (current_kind_ne_eof hrule)]
    dsimp only at *
    omega

theorem run_operand (rule : OperandRule) (s : Parser) :
    Run (.operand rule) s (s.operand rule).1 (s.operand rule).2 := by
  rw [operand_eq]
  cases rule with
  | identifier => exact .identifier
  | integer =>
      dsimp only [integer]
      split
      · next value hvalue => exact .integer hvalue
      · next hvalue => exact .badInteger hvalue
  | boolean => exact .boolean
  | unary =>
      have hright := run_expression .unary s.advance
      dsimp only
      generalize s.advance.expression .unary = r at hright ⊢
      obtain ⟨result, t⟩ := r
      cases result with
      | none => exact .unaryFails hright
      | some right => exact .unary hright
  | group =>
      have hinner := run_expression .lowest s.advance
      dsimp only
      generalize s.advance.expression .lowest = r at hinner ⊢
      obtain ⟨result, t⟩ := r
      cases result with
      | none => exact .groupFails hinner
      | some inner =>
          by_cases hclose : t.peek.kind = .closeParen
          · simp only [expect, if_pos hclose]
            exact .group hinner hclose
          · simp only [expect, if_neg hclose]
            exact .groupOpen hinner hclose
termination_by 2 * s.ahead + 1
decreasing_by
  all_goals
    have hle := s.todo_advance_le
    omega

theorem run_climb (floor : Power) (left : Expr) (s : Parser) :
    Run (.climb floor left) s (s.climb floor left).1 (s.climb floor left).2 := by
  rw [climb_eq]
  by_cases hcont : s.continues floor = true ∧ s.dialect.joins s.peek.kind = true
  · -- Each round takes an operator, so there is less ahead in the next one.
    have hjoin := run_join left s.takeOperator
    have hahead := s.takeOperator.ahead_join_le left
    rw [if_pos hcont]
    generalize s.takeOperator.join left = r at hjoin hahead ⊢
    obtain ⟨result, t⟩ := r
    cases result with
    | none => exact .climbFails hcont hjoin
    | some joined => exact .climb hcont hjoin (run_climb floor joined t)
  · rw [if_neg hcont]
    exact .stop hcont
termination_by 2 * s.ahead + 1
decreasing_by
  all_goals
    have hlt := ahead_takeOperator_lt hcont.2
    dsimp only at *
    omega

theorem run_join (left : Expr) (s : Parser) :
    Run (.join left) s (s.join left).1 (s.join left).2 := by
  have hright := run_expression s.currentPower s.advance
  rw [join_eq]
  generalize s.advance.expression s.currentPower = r at hright ⊢
  obtain ⟨result, t⟩ := r
  cases result with
  | none => exact .joinFails hright
  | some right => exact .join hright
termination_by 2 * s.ahead + 1
decreasing_by
  have hle := s.todo_advance_le
  omega

end

/-! ## What a run keeps, and what it adds -/

variable {call : Call} {s t : Parser} {result : Option Expr}

/-- A run leaves the dialect as it is. -/
theorem Run.dialect_eq (h : Run call s result t) : t.dialect = s.dialect := by
  induction h with
  | noOperand | badInteger | identifier | integer | boolean | stop => rfl
  | operandFails _ _ ih => exact ih
  | operandThen _ _ _ iho ihc => exact ihc.trans iho
  | unaryFails _ ih | unary _ ih | groupFails _ ih | group _ _ ih | groupOpen _ _ ih => exact ih
  | climbFails _ _ ih => exact ih
  | climb _ _ _ ihj ihc => exact ihc.trans ihj
  | joinFails _ ih | join _ ih => exact ih

/-- What a step from `s` gives is there and nothing has been recorded, or it is missing and exactly one
    diagnostic has been. -/
def Accounts {α : Type} (s : Parser) (result : Option α) (t : Parser) : Prop :=
  match result with
  | some _ => t.diagnostics = s.diagnostics
  | none => ∃ d, t.diagnostics = s.diagnostics.push d

theorem Accounts.of_eq {α : Type} {s s' t : Parser} {result : Option α}
    (h : s'.Accounts result t) (heq : s'.diagnostics = s.diagnostics) : s.Accounts result t := by
  unfold Accounts at h ⊢
  rwa [heq] at h

/-- **A run that gives a tree records nothing, and one that gives none records one diagnostic.** -/
theorem Run.accounts (h : Run call s result t) : s.Accounts result t := by
  induction h with
  | noOperand | badInteger => exact ⟨_, rfl⟩
  | identifier | integer | boolean | stop => rfl
  | operandFails _ _ ih => exact ih
  | operandThen _ _ _ iho ihc => exact ihc.of_eq iho
  | unaryFails _ ih | unary _ ih | groupFails _ ih | group _ _ ih => exact ih
  | groupOpen _ _ ih => exact ⟨_, congrArg (Array.push · _) ih⟩
  | climbFails _ _ ih => exact ih
  | climb _ _ _ ihj ihc => exact ihc.of_eq ihj
  | joinFails _ ih | join _ ih => exact ih

/-- **A run only moves ahead**: what it leaves to read is the end of what there was. -/
theorem Run.onward (h : Run call s result t) : s.Onward t := by
  induction h with
  | noOperand | badInteger => exact onward_report _ _
  | identifier | integer | boolean | stop => exact Onward.refl _
  | operandFails _ _ ih => exact ih
  | operandThen _ _ _ iho ihc => exact iho.trans ihc
  | unaryFails _ ih | unary _ ih | groupFails _ ih => exact (onward_advance _).trans ih
  | group _ _ ih => exact ((onward_advance _).trans ih).trans (onward_advance _)
  | groupOpen _ _ ih => exact ((onward_advance _).trans ih).trans (onward_report _ _)
  | climbFails _ _ ih => exact (onward_takeOperator _).trans ih
  | climb _ _ _ ihj ihc => exact ((onward_takeOperator _).trans ihj).trans ihc
  | joinFails _ ih | join _ ih => exact (onward_advance _).trans ih

end Parser

end LetLang
