import LetLang.Expr
import LetLang.Parser

/-!
# `LetLang.Parser.Expression` — reading expressions

An expression is an operand followed by operators that bind more tightly than the context asks, each
with its right operand. The right operand of an operator is read in the context of that operator's own
power, so operators of equal power group to the left.

A rule either gives a tree, and leaves the parser at the last token of it, or gives none and has
recorded a diagnostic.

## Contents
- `Step`: a result that comes with the bound that makes the recursion end.
- `expressionStep`, `operandStep`, `climbStep`, `joinStep`: the rules, by recursion on what lies ahead.
- `Parser.expression`, `Parser.operand`, `Parser.climb`, `Parser.join`: the same without the bound, with
  one equation each (`expression_eq`, …) that mentions no bound.
-/

namespace LetLang

namespace Parser

/-! ## Leaves -/

/-- The current token as a name. -/
def identifier (s : Parser) : Expr :=
  .identifier ⟨s.current, s.current.text⟩

/-- The current token as an integer. The parser stays where it is. -/
def integer (s : Parser) : Option Expr × Parser :=
  match Text.readInt64? s.current.text with
  | some value => (some (.integer s.current value), s)
  | none => (none, s.report (.badInteger s.current.text))

/-- The current token as a truth value. -/
def boolean (s : Parser) : Expr :=
  .boolean s.current (s.current.kind == .trueWord)

theorem ahead_integer (s : Parser) : s.integer.2.ahead = s.ahead := by
  unfold integer
  split <;> rfl

/-! ## The rules -/

/-- What a rule gives at the state `s`: perhaps a value, and a state with no more ahead of it. -/
abbrev Step (s : Parser) (α : Type) : Type :=
  { r : Option α × Parser // r.2.ahead ≤ s.ahead }

/-- A step from a later state is one from an earlier state. -/
def Step.after {s t : Parser} {α : Type} (step : Step t α) (h : t.ahead ≤ s.ahead) : Step s α :=
  ⟨step.val, Nat.le_trans step.property h⟩

/-- Does the next token carry an expression on, in a context of power `floor`? A semicolon never does,
    and any other token does if it binds more tightly. -/
def continues (s : Parser) (floor : Power) : Bool :=
  s.peek.kind ≠ .semicolon && floor < s.peekPower

/-- Takes the next token as an operator. -/
def takeOperator (s : Parser) : Parser :=
  let t := s.advance
  t.note (.operator t.current.kind t.currentPower)

theorem ahead_takeOperator_lt {s : Parser} (h : s.dialect.joins s.peek.kind = true) :
    s.takeOperator.ahead < s.ahead := by
  apply ahead_advance_lt
  intro heof
  rw [heof, s.dialect.joins_eof] at h
  exact absurd h (by decide)

theorem current_kind_ne_eof {s : Parser} {rule : OperandRule}
    (h : s.dialect.operand s.current.kind = some rule) : s.current.kind ≠ .eof := by
  intro heof
  rw [heof, s.dialect.operand_eof] at h
  exact nomatch h

mutual

/-- An expression in a context of power `floor`, from the current token on. -/
def expressionStep (floor : Power) (s : Parser) : Step s Expr :=
  match _hrule : s.dialect.operand s.current.kind with
  | none => ⟨(none, s.report (.noOperand s.current.kind)), Nat.le_refl _⟩
  | some rule =>
    match operandStep rule s with
    | ⟨(none, t), ht⟩ => ⟨(none, t), ht⟩
    | ⟨(some left, t), ht⟩ => (climbStep floor left t).after ht
termination_by 2 * s.todo
decreasing_by
  · rw [todo, if_neg (current_kind_ne_eof _hrule)]
    omega
  · rw [todo, if_neg (current_kind_ne_eof _hrule)]
    have hle : t.ahead ≤ s.ahead := ht
    omega

/-- The operand that begins at the current token, read by `rule`. -/
def operandStep (rule : OperandRule) (s : Parser) : Step s Expr :=
  match rule with
  | .identifier => ⟨(some s.identifier, s), Nat.le_refl _⟩
  | .integer => ⟨s.integer, Nat.le_of_eq s.ahead_integer⟩
  | .boolean => ⟨(some s.boolean, s), Nat.le_refl _⟩
  | .unary =>
    -- The operator is taken out first: the state itself moves on, and nothing else holds on to it.
    let operator := s.current
    match expressionStep .unary s.advance with
    | ⟨(none, t), ht⟩ => ⟨(none, t), Nat.le_trans ht s.ahead_advance_le⟩
    | ⟨(some right, t), ht⟩ =>
      ⟨(some (.unary operator operator.text right), t), Nat.le_trans ht s.ahead_advance_le⟩
  | .group =>
    match expressionStep .lowest s.advance with
    | ⟨(none, t), ht⟩ => ⟨(none, t), Nat.le_trans ht s.ahead_advance_le⟩
    | ⟨(some inner, t), ht⟩ =>
      ⟨((t.expect .closeParen).1.map fun _ => inner, (t.expect .closeParen).2),
        Nat.le_trans (t.ahead_expect_le .closeParen) (Nat.le_trans ht s.ahead_advance_le)⟩
termination_by 2 * s.ahead + 1
decreasing_by
  · have hle := s.todo_advance_le
    omega
  · have hle := s.todo_advance_le
    omega

/-- Carries `left` on as long as operators bind more tightly than `floor`. -/
def climbStep (floor : Power) (left : Expr) (s : Parser) : Step s Expr :=
  if s.continues floor then
    if hjoins : s.dialect.joins s.peek.kind then
      match joinStep left s.takeOperator with
      | ⟨(none, t), ht⟩ =>
        ⟨(none, t), Nat.le_trans ht (Nat.le_of_lt (ahead_takeOperator_lt hjoins))⟩
      | ⟨(some joined, t), ht⟩ =>
        (climbStep floor joined t).after
          (Nat.le_trans ht (Nat.le_of_lt (ahead_takeOperator_lt hjoins)))
    else ⟨(some left, s), Nat.le_refl _⟩
  else ⟨(some left, s), Nat.le_refl _⟩
termination_by 2 * s.ahead + 1
decreasing_by
  · have hlt := ahead_takeOperator_lt hjoins
    omega
  · have hlt := ahead_takeOperator_lt hjoins
    have hle : t.ahead ≤ s.takeOperator.ahead := ht
    omega

/-- Joins `left` to the operand behind the current token, which is the operator. -/
def joinStep (left : Expr) (s : Parser) : Step s Expr :=
  let operator := s.current
  match expressionStep s.currentPower s.advance with
  | ⟨(none, t), ht⟩ => ⟨(none, t), Nat.le_trans ht s.ahead_advance_le⟩
  | ⟨(some right, t), ht⟩ =>
    ⟨(some (.binary operator left operator.text right), t), Nat.le_trans ht s.ahead_advance_le⟩
termination_by 2 * s.ahead + 1
decreasing_by
  have hle := s.todo_advance_le
  omega

end

/-! ## The rules without the bound -/

/-- An expression in a context of power `floor`, from the current token on. -/
def expression (floor : Power) (s : Parser) : Option Expr × Parser := (expressionStep floor s).val

/-- The operand that begins at the current token, read by `rule`. -/
def operand (rule : OperandRule) (s : Parser) : Option Expr × Parser := (operandStep rule s).val

/-- Carries `left` on as long as operators bind more tightly than `floor`. -/
def climb (floor : Power) (left : Expr) (s : Parser) : Option Expr × Parser :=
  (climbStep floor left s).val

/-- Joins `left` to the operand behind the current token, which is the operator. -/
def join (left : Expr) (s : Parser) : Option Expr × Parser := (joinStep left s).val

theorem ahead_expression_le (floor : Power) (s : Parser) :
    (s.expression floor).2.ahead ≤ s.ahead :=
  (expressionStep floor s).property

theorem ahead_operand_le (rule : OperandRule) (s : Parser) :
    (s.operand rule).2.ahead ≤ s.ahead :=
  (operandStep rule s).property

theorem ahead_join_le (left : Expr) (s : Parser) : (s.join left).2.ahead ≤ s.ahead :=
  (joinStep left s).property

theorem expression_eq (floor : Power) (s : Parser) :
    s.expression floor =
      match s.dialect.operand s.current.kind with
      | none => (none, s.report (.noOperand s.current.kind))
      | some rule =>
        match s.operand rule with
        | (none, t) => (none, t)
        | (some left, t) => t.climb floor left := by
  rw [expression, expressionStep]
  split
  · next h => rw [h]
  · next rule h =>
    rw [h]
    dsimp only [operand]
    split <;> simp_all [climb, Step.after]

theorem operand_eq (rule : OperandRule) (s : Parser) :
    s.operand rule =
      match rule with
      | .identifier => (some s.identifier, s)
      | .integer => s.integer
      | .boolean => (some s.boolean, s)
      | .unary =>
        match s.advance.expression .unary with
        | (none, t) => (none, t)
        | (some right, t) => (some (.unary s.current s.current.text right), t)
      | .group =>
        match s.advance.expression .lowest with
        | (none, t) => (none, t)
        | (some inner, t) =>
          ((t.expect .closeParen).1.map fun _ => inner, (t.expect .closeParen).2) := by
  cases rule with
  | identifier | integer | boolean => rw [operand, operandStep]
  | unary | group =>
    rw [operand, operandStep]
    dsimp only [expression]
    split <;> simp_all

theorem climb_eq (floor : Power) (left : Expr) (s : Parser) :
    s.climb floor left =
      if s.continues floor ∧ s.dialect.joins s.peek.kind then
        match s.takeOperator.join left with
        | (none, t) => (none, t)
        | (some joined, t) => t.climb floor joined
      else (some left, s) := by
  rw [climb, climbStep]
  split
  · next hcont =>
    split
    · next hjoins =>
      rw [if_pos ⟨hcont, hjoins⟩]
      dsimp only [join]
      split <;> simp_all [climb, Step.after]
    · next hjoins => rw [if_neg fun h => hjoins h.2]
  · next hcont => rw [if_neg fun h => hcont h.1]

theorem join_eq (left : Expr) (s : Parser) :
    s.join left =
      match s.advance.expression s.currentPower with
      | (none, t) => (none, t)
      | (some right, t) => (some (.binary s.current left s.current.text right), t) := by
  rw [join, joinStep]
  dsimp only [expression]
  split <;> simp_all

end Parser

end LetLang
