import LetLang.Proofs.Attempts
import LetLang.Proofs.Steps

/-!
# `LetLang.Proofs.Trace` — every rule is a list of steps

What a rule does is a list of steps, and which steps these are depends on the tokens that the steps reach
and on nothing else. So a parser with the same tokens in front of it, as far as the steps reach, takes the
same steps with the same result, whatever follows, and whatever has been recorded before.

## Contents
- `Parser.Local`: a rule takes certain steps, at a parser and at all that are alike.
- `Run.traced`: the calls of the expression rules, with one lemma for each way in which they can go.
- `Attempt.traced`: the attempts at statements.
-/

namespace LetLang

/-! ## The steps of the expression rules -/

/-- How many tokens, from the current one on, a call looks at, at least. -/
def Call.sight : Call → Nat
  | .expression _ | .operand _ | .join _ => 1
  | .climb _ _ => 2

namespace Parser

/-- The rule `f`, applied at a parser, gives `result` by the steps `actions`, and by the same steps at
    every parser that is alike as far as they reach. -/
structure Local {α : Type} (f : Parser → Option α × Parser) (s : Parser) (result : Option α)
    (actions : List Action) : Prop where
  shape : Traces result actions
  answer : ∀ {s' : Parser}, Alike (Action.reach actions) s s' → f s' = (result, s'.perform actions)

/-- What a call gives at a parser. -/
def answer : Call → Parser → Option Expr × Parser
  | .expression floor, s => s.expression floor
  | .operand rule, s => s.operand rule
  | .climb floor left, s => s.climb floor left
  | .join left, s => s.join left

/-- The steps of a call. They reach at least as far as the call looks in any case. -/
structure Traced (call : Call) (s : Parser) (result : Option Expr) (actions : List Action) : Prop
    extends Local (answer call) s result actions where
  sight : call.sight ≤ Action.reach actions

section

variable {floor : Power} {rule : OperandRule} {left : Expr} {result : Option Expr}
  {actions more : List Action} {s : Parser}

theorem traced_noOperand (h : s.dialect.operand s.current.kind = none) :
    Traced (.expression floor) s none [.report (.noOperand s.current.kind)] where
  shape := traces_report _
  sight := Nat.le_refl 1
  answer := by
    intro s' hs
    have hcurrent : s'.current = s.current := hs.current (Action.reach_pos _)
    rw [Parser.answer, expression_eq, hs.dialect, hcurrent, h]
    rfl

theorem traced_operandFails (h : s.dialect.operand s.current.kind = some rule)
    (hoperand : Traced (.operand rule) s none actions) :
    Traced (.expression floor) s none actions where
  shape := hoperand.shape
  sight := hoperand.sight
  answer := by
    intro s' hs
    have hread : s'.operand rule = _ := hoperand.answer hs
    rw [Parser.answer, expression_eq, hs.dialect, hs.current (Action.reach_pos _), h]
    simp only [hread]

/-- The climb goes on from where the operand ends, and looks at least at the token behind it. -/
theorem traced_operandThen (h : s.dialect.operand s.current.kind = some rule)
    (hoperand : Traced (.operand rule) s (some left) actions)
    (hclimb : Traced (.climb floor left) (s.perform actions) result more) :
    Traced (.expression floor) s result (actions ++ more) where
  shape := hoperand.shape.append hclimb.shape
  sight := Action.reach_pos _
  answer := by
    intro s' hs
    rw [Action.reach_append hoperand.shape] at hs
    have hsight : 2 ≤ Action.reach more := hclimb.sight
    have hfirst := Action.reach_quiet hoperand.shape
    have hread : s'.operand rule = _ := hoperand.answer (hs.mono (by omega))
    have hrest : (s'.perform actions).climb floor left = _ := hclimb.answer hs.perform
    rw [Parser.answer, expression_eq, hs.dialect, hs.current (by omega), h]
    simp only [hread, hrest, perform_append]

theorem traced_identifier : Traced (.operand .identifier) s (some s.identifier) [] where
  shape := traces_nil _
  sight := Nat.le_succ 1
  answer := by
    intro s' hs
    rw [Parser.answer, operand_eq, identifier, identifier, hs.current (Action.reach_pos _)]
    rfl

theorem traced_integer {value : Int} (h : Text.readInt64? s.current.text = some value) :
    Traced (.operand .integer) s (some (.integer s.current value)) [] where
  shape := traces_nil _
  sight := Nat.le_succ 1
  answer := by
    intro s' hs
    rw [Parser.answer, operand_eq, integer, hs.current (Action.reach_pos _), h]
    rfl

theorem traced_badInteger (h : Text.readInt64? s.current.text = none) :
    Traced (.operand .integer) s none [.report (.badInteger s.current.text)] where
  shape := traces_report _
  sight := Nat.le_refl 1
  answer := by
    intro s' hs
    rw [Parser.answer, operand_eq, integer, hs.current (Action.reach_pos _), h]
    rfl

theorem traced_boolean : Traced (.operand .boolean) s (some s.boolean) [] where
  shape := traces_nil _
  sight := Nat.le_succ 1
  answer := by
    intro s' hs
    rw [Parser.answer, operand_eq, boolean, boolean, hs.current (Action.reach_pos _)]
    rfl

theorem traced_unaryFails (h : Traced (.expression .unary) s.advance none actions) :
    Traced (.operand .unary) s none (.advance :: actions) where
  shape := h.shape.cons .advance
  sight := Action.reach_pos _
  answer := by
    intro s' hs
    have hread : s'.advance.expression .unary = _ := h.answer hs.advance
    rw [Parser.answer, operand_eq]
    simp only [hread]
    rfl

theorem traced_unary {right : Expr} (h : Traced (.expression .unary) s.advance (some right) actions) :
    Traced (.operand .unary) s (some (.unary s.current s.current.text right))
      (.advance :: actions) where
  shape := h.shape.cons .advance
  sight := Action.reach_pos _
  answer := by
    intro s' hs
    have hread : s'.advance.expression .unary = _ := h.answer hs.advance
    rw [Parser.answer, operand_eq]
    simp only [hread, hs.current (Action.reach_pos _)]
    rfl

theorem traced_groupFails (h : Traced (.expression .lowest) s.advance none actions) :
    Traced (.operand .group) s none (.advance :: actions) where
  shape := h.shape.cons .advance
  sight := Action.reach_pos _
  answer := by
    intro s' hs
    have hread : s'.advance.expression .lowest = _ := h.answer hs.advance
    rw [Parser.answer, operand_eq]
    simp only [hread]
    rfl

/-- Behind the expression in a group the next token is looked at, whether it closes the group or not. -/
theorem Traced.group_answer {inner : Expr} {s' : Parser}
    (h : Traced (.expression .lowest) s.advance (some inner) actions)
    (hs : Alike (Action.moves actions + 2) s.advance s'.advance) :
    s'.operand .group =
      (((s'.advance.perform actions).expect .closeParen).1.map fun _ => inner,
        ((s'.advance.perform actions).expect .closeParen).2) ∧
      (s'.advance.perform actions).peek = (s.advance.perform actions).peek := by
  have hread : s'.advance.expression .lowest = _ :=
    h.answer (hs.mono (Nat.le_of_eq (Action.reach_quiet h.shape)))
  refine ⟨?_, hs.perform.peek Nat.one_lt_two⟩
  rw [operand_eq]
  simp only [hread]

theorem traced_group {inner : Expr}
    (h : Traced (.expression .lowest) s.advance (some inner) actions)
    (hclose : (s.advance.perform actions).peek.kind = .closeParen) :
    Traced (.operand .group) s (some inner) (.advance :: (actions ++ [.advance])) where
  shape := (h.shape.append (traces_advance inner)).cons .advance
  sight := Action.reach_pos _
  answer := by
    intro s' hs
    rw [Action.reach, Action.reach_append h.shape] at hs
    obtain ⟨hgroup, hpeek⟩ := h.group_answer (hs.advance.mono (Nat.le_succ _))
    rw [Parser.answer, hgroup, expect_of_eq (by rw [hpeek, hclose]), perform_cons, perform_append]
    rfl

theorem traced_groupOpen {inner : Expr}
    (h : Traced (.expression .lowest) s.advance (some inner) actions)
    (hopen : (s.advance.perform actions).peek.kind ≠ .closeParen) :
    Traced (.operand .group) s none (.advance :: (actions ++
      [.report (.unexpectedToken .closeParen (s.advance.perform actions).peek.kind)])) where
  shape := (h.shape.append (traces_report _)).cons .advance
  sight := Action.reach_pos _
  answer := by
    intro s' hs
    rw [Action.reach, Action.reach_append h.shape] at hs
    obtain ⟨hgroup, hpeek⟩ := h.group_answer hs.advance
    rw [Parser.answer, hgroup, expect_of_ne (by rwa [hpeek]), hpeek, perform_cons, perform_append]
    rfl

theorem traced_stop (h : ¬(s.continues floor = true ∧ s.dialect.joins s.peek.kind = true)) :
    Traced (.climb floor left) s (some left) [] where
  shape := traces_nil _
  sight := Nat.le_refl 2
  answer := by
    intro s' hs
    rw [Parser.answer, climb_eq, hs.continues Nat.one_lt_two, hs.dialect, hs.peek Nat.one_lt_two,
      if_neg h]
    rfl

/-- A parser that is alike takes the next operator as well, and by the same steps. -/
theorem Alike.climb_eq {n : Nat} {s' : Parser} (left : Expr) (hs : Alike n s s') (hn : 1 < n)
    (h : s.continues floor = true ∧ s.dialect.joins s.peek.kind = true) :
    s'.climb floor left =
      match (s'.perform s.operatorActions).join left with
      | (none, t) => (none, t)
      | (some joined, t) => t.climb floor joined := by
  have heq := Parser.climb_eq floor left s'
  rw [hs.continues hn, hs.dialect, hs.peek hn, if_pos h, hs.takeOperator hn] at heq
  exact heq

theorem traced_climbFails (h : s.continues floor = true ∧ s.dialect.joins s.peek.kind = true)
    (hjoin : Traced (.join left) s.takeOperator none actions) :
    Traced (.climb floor left) s none (s.operatorActions ++ actions) where
  shape := s.traces_operatorActions.append hjoin.shape
  sight := Nat.succ_le_succ (Action.reach_pos actions)
  answer := by
    intro s' hs
    have hclimb := hs.climb_eq left (Nat.succ_le_succ (Action.reach_pos actions)) h
    rw [Action.reach_append s.traces_operatorActions] at hs
    have hread : (s'.perform s.operatorActions).join left = _ := hjoin.answer hs.perform
    rw [Parser.answer, hclimb]
    simp only [hread, perform_append]

/-- One round of climbing. The rounds behind it begin where the right operand ends. -/
theorem traced_climb {joined : Expr}
    (h : s.continues floor = true ∧ s.dialect.joins s.peek.kind = true)
    (hjoin : Traced (.join left) s.takeOperator (some joined) actions)
    (hclimb : Traced (.climb floor joined) (s.takeOperator.perform actions) result more) :
    Traced (.climb floor left) s result (s.operatorActions ++ (actions ++ more)) where
  shape := s.traces_operatorActions.append (hjoin.shape.append hclimb.shape)
  sight := Nat.succ_le_succ (Action.reach_pos _)
  answer := by
    intro s' hs
    have hround := hs.climb_eq left (Nat.succ_le_succ (Action.reach_pos (actions ++ more))) h
    rw [Action.reach_append s.traces_operatorActions] at hs
    have hoperator := hs.perform
    rw [Action.reach_append hjoin.shape] at hoperator
    have hsight : 2 ≤ Action.reach more := hclimb.sight
    have hoperand := Action.reach_quiet hjoin.shape
    have hread : (s'.perform s.operatorActions).join left = _ :=
      hjoin.answer (hoperator.mono (by omega))
    have hrest : ((s'.perform s.operatorActions).perform actions).climb floor joined = _ :=
      hclimb.answer hoperator.perform
    rw [Parser.answer, hround]
    simp only [hread, hrest, perform_append]

theorem traced_joinFails (h : Traced (.expression s.currentPower) s.advance none actions) :
    Traced (.join left) s none (.advance :: actions) where
  shape := h.shape.cons .advance
  sight := Action.reach_pos _
  answer := by
    intro s' hs
    have hread : s'.advance.expression s.currentPower = _ := h.answer hs.advance
    rw [Parser.answer, join_eq, hs.currentPower (Action.reach_pos _)]
    simp only [hread]
    rfl

theorem traced_join {right : Expr}
    (h : Traced (.expression s.currentPower) s.advance (some right) actions) :
    Traced (.join left) s (some (.binary s.current left s.current.text right))
      (.advance :: actions) where
  shape := h.shape.cons .advance
  sight := Action.reach_pos _
  answer := by
    intro s' hs
    have hread : s'.advance.expression s.currentPower = _ := h.answer hs.advance
    rw [Parser.answer, join_eq, hs.currentPower (Action.reach_pos _)]
    simp only [hread, hs.current (Action.reach_pos _)]
    rfl

end

/-- **Every run of the expression rules is a list of steps**, and a parser that is alike as far as they
    reach takes the same ones, with the same result. -/
theorem Run.traced {call : Call} {s t : Parser} {result : Option Expr} (h : Run call s result t) :
    ∃ actions, t = s.perform actions ∧ Traced call s result actions := by
  induction h with
  | noOperand h => exact ⟨_, rfl, traced_noOperand h⟩
  | operandFails h _ ih =>
      obtain ⟨actions, rfl, hoperand⟩ := ih
      exact ⟨actions, rfl, traced_operandFails h hoperand⟩
  | operandThen h _ _ iho ihc =>
      obtain ⟨actions, rfl, hoperand⟩ := iho
      obtain ⟨more, rfl, hclimb⟩ := ihc
      exact ⟨actions ++ more, (perform_append ..).symm, traced_operandThen h hoperand hclimb⟩
  | identifier => exact ⟨[], rfl, traced_identifier⟩
  | integer h => exact ⟨[], rfl, traced_integer h⟩
  | badInteger h => exact ⟨_, rfl, traced_badInteger h⟩
  | boolean => exact ⟨[], rfl, traced_boolean⟩
  | unaryFails _ ih =>
      obtain ⟨actions, rfl, hright⟩ := ih
      exact ⟨_, rfl, traced_unaryFails hright⟩
  | unary _ ih =>
      obtain ⟨actions, rfl, hright⟩ := ih
      exact ⟨_, rfl, traced_unary hright⟩
  | groupFails _ ih =>
      obtain ⟨actions, rfl, hinner⟩ := ih
      exact ⟨_, rfl, traced_groupFails hinner⟩
  | group _ hclose ih =>
      obtain ⟨actions, rfl, hinner⟩ := ih
      refine ⟨_, ?_, traced_group hinner hclose⟩
      exact (perform_append _ actions [.advance]).symm
  | groupOpen _ hopen ih =>
      obtain ⟨actions, rfl, hinner⟩ := ih
      refine ⟨_, ?_, traced_groupOpen hinner hopen⟩
      exact (perform_append _ actions [.report _]).symm
  | stop h => exact ⟨[], rfl, traced_stop h⟩
  | climbFails h _ ih =>
      obtain ⟨actions, rfl, hjoin⟩ := ih
      refine ⟨_, ?_, traced_climbFails h hjoin⟩
      rw [perform_append, takeOperator_eq]
  | climb h _ _ ihj ihc =>
      obtain ⟨actions, rfl, hjoin⟩ := ihj
      obtain ⟨more, rfl, hclimb⟩ := ihc
      refine ⟨_, ?_, traced_climb h hjoin hclimb⟩
      rw [perform_append, perform_append, takeOperator_eq]
  | joinFails _ ih =>
      obtain ⟨actions, rfl, hright⟩ := ih
      exact ⟨_, rfl, traced_joinFails hright⟩
  | join _ ih =>
      obtain ⟨actions, rfl, hright⟩ := ih
      exact ⟨_, rfl, traced_join hright⟩

/-! ## The steps of the statement rules -/

/-- The steps that take the semicolon behind a statement, if there is one. -/
def semicolonActions (s : Parser) : List Action :=
  if s.peek.kind = .semicolon then [.advance] else []

theorem skipSemicolon_eq (s : Parser) : s.skipSemicolon = s.perform s.semicolonActions := by
  unfold skipSemicolon semicolonActions
  split <;> rfl

section

variable {rule : StatementRule} {actions : List Action} {value : Expr} {s : Parser}

theorem traces_semicolonActions (value : Expr) (s : Parser) :
    Traces (some value) s.semicolonActions := by
  unfold semicolonActions
  split
  · exact traces_advance value
  · exact traces_nil value

theorem reach_semicolonActions (s : Parser) : 2 ≤ Action.reach s.semicolonActions := by
  unfold semicolonActions
  split <;> decide

theorem local_valueFails (h : Local (expression .lowest) s none actions) :
    Local Parser.value s none actions where
  shape := h.shape
  answer := by
    intro s' hs
    simp only [Parser.value, h.answer hs]

theorem local_value (h : Local (expression .lowest) s (some value) actions) :
    Local Parser.value s (some value) (actions ++ (s.perform actions).semicolonActions) where
  shape := h.shape.append (traces_semicolonActions value _)
  answer := by
    intro s' hs
    rw [Action.reach_append h.shape] at hs
    have hsight := (s.perform actions).reach_semicolonActions
    have hvalue := Action.reach_quiet h.shape
    have hpeek := hs.perform.peek hsight
    rw [Parser.value, h.answer (hs.mono (by omega))]
    simp only [skipSemicolon_eq, perform_append, semicolonActions, hpeek]

theorem local_bindNoName (hname : s.peek.kind ≠ .ident) :
    Local (statementBy .bind) s none [.report (.unexpectedToken .ident s.peek.kind)] where
  shape := traces_report _
  answer := by
    intro s' hs
    have hpeek : s'.peek = s.peek := hs.peek Nat.one_lt_two
    rw [statementBy, bindStatement, expect_of_ne (by rwa [hpeek]), hpeek]
    rfl

theorem local_bindNoSign (hname : s.peek.kind = .ident) (hsign : s.advance.peek.kind ≠ .assign) :
    Local (statementBy .bind) s none
      [.advance, .report (.unexpectedToken .assign s.advance.peek.kind)] where
  shape := (traces_report _).cons .advance
  answer := by
    intro s' hs
    have hpeek : s'.peek = s.peek := hs.peek (Nat.succ_lt_succ (Action.reach_pos _))
    have hpeek' : s'.advance.peek = s.advance.peek := hs.advance.peek Nat.one_lt_two
    rw [statementBy, bindStatement, expect_of_eq (by rwa [hpeek])]
    simp only [expect_of_ne (show s'.advance.peek.kind ≠ .assign by rwa [hpeek']), hpeek']
    rfl

/-- The steps of a statement up to its value: over the words in front of it. -/
def leadActions : StatementRule → List Action
  | .bind => [.advance, .advance, .advance]
  | .ret => [.advance]
  | .expr => []

theorem traces_leadActions (rule : StatementRule) : Traces (some ()) (leadActions rule) := by
  cases rule with
  | bind => exact (((traces_advance ()).cons .advance).cons .advance)
  | ret => exact traces_advance ()
  | expr => exact traces_nil ()

/-- The statement that a rule makes of its value, where nothing is amiss in front of it. -/
def statementOf (rule : StatementRule) (s : Parser) (value : Expr) : Stmt :=
  match rule with
  | .bind => .bind s.current ⟨s.peek, s.peek.text⟩ value
  | .ret => .ret s.current value
  | .expr => .expr s.current value

/-- A rule whose words are all there is as good as its value. -/
theorem statementBy_eq_value
    (hbind : rule = .bind → s.peek.kind = .ident ∧ s.advance.peek.kind = .assign) :
    s.statementBy rule =
      ((s.perform (leadActions rule)).value.1.map (s.statementOf rule),
        (s.perform (leadActions rule)).value.2) := by
  cases rule with
  | bind =>
      obtain ⟨hname, hsign⟩ := hbind rfl
      show s.bindStatement = _
      unfold bindStatement
      simp only [expect_of_eq hname, expect_of_eq hsign]
      show _ = (s.advance.advance.advance.value.1.map _, s.advance.advance.advance.value.2)
      split <;> simp_all [statementOf]
  | ret =>
      show s.retStatement = (s.advance.value.1.map _, s.advance.value.2)
      unfold retStatement
      split <;> simp_all [statementOf]
  | expr =>
      show s.exprStatement = (s.value.1.map _, s.value.2)
      unfold exprStatement
      split <;> simp_all [statementOf]

theorem Alike.statementOf {n : Nat} {s' : Parser} (hs : Alike (n + 1) s s')
    (hbind : rule = .bind → 1 < n + 1) : s'.statementOf rule = s.statementOf rule := by
  funext value
  cases rule with
  | bind => simp only [Parser.statementOf, hs.current (Nat.succ_pos n), hs.peek (hbind rfl)]
  | ret | expr => simp only [Parser.statementOf, hs.current (Nat.succ_pos n)]

theorem local_statementBy (rule : StatementRule) {result : Option Expr}
    (hbind : rule = .bind → s.peek.kind = .ident ∧ s.advance.peek.kind = .assign)
    (h : Local Parser.value (s.perform (leadActions rule)) result actions) :
    Local (statementBy rule) s (result.map (s.statementOf rule)) (leadActions rule ++ actions) where
  shape := by
    have hshape := (traces_leadActions rule).append h.shape
    cases result <;> exact hshape
  answer := by
    intro s' hs
    have hpos := Action.reach_pos actions
    rw [Action.reach_append (traces_leadActions rule)] at hs
    have hlead : rule = .bind → Action.moves (leadActions rule) = 3 := by rintro rfl; rfl
    have hbind' : rule = .bind → s'.peek.kind = .ident ∧ s'.advance.peek.kind = .assign := by
      intro hrule
      have hmoves := hlead hrule
      have hs3 : Alike 3 s s' := hs.mono (by omega)
      rw [hs3.peek (by omega), hs3.advance.peek (by omega)]
      exact hbind hrule
    have hof : s'.statementOf rule = s.statementOf rule := by
      have hs1 := hs.mono (m := Action.moves (leadActions rule) + 1) (by omega)
      exact hs1.statementOf fun hrule => by have hmoves := hlead hrule; omega
    rw [statementBy_eq_value hbind', h.answer hs.perform, hof, perform_append]

end

/-- **Every attempt is a list of steps**, and a parser that is alike as far as they reach takes the same
    ones, with the same result. -/
theorem Attempt.traced {rule : StatementRule} {s t : Parser} {result : Option Stmt}
    (h : Attempt rule s result t) :
    ∃ actions, t = s.perform actions ∧ Local (statementBy rule) s result actions := by
  cases h with
  | bindNoName hname => exact ⟨_, rfl, local_bindNoName hname⟩
  | bindNoSign hname hsign => exact ⟨_, rfl, local_bindNoSign hname hsign⟩
  | bindFails hname hsign h =>
      obtain ⟨actions, rfl, hvalue⟩ := h.traced
      have hfails := local_valueFails hvalue.toLocal
      exact ⟨_, rfl, local_statementBy .bind (fun _ => ⟨hname, hsign⟩) hfails⟩
  | bind hname hsign h =>
      obtain ⟨actions, rfl, hvalue⟩ := h.traced
      have hread := local_value hvalue.toLocal
      refine ⟨_, ?_, local_statementBy .bind (fun _ => ⟨hname, hsign⟩) hread⟩
      rw [skipSemicolon_eq, perform_append, perform_append]
      rfl
  | retFails h =>
      obtain ⟨actions, rfl, hvalue⟩ := h.traced
      exact ⟨_, rfl, local_statementBy .ret nofun (local_valueFails hvalue.toLocal)⟩
  | ret h =>
      obtain ⟨actions, rfl, hvalue⟩ := h.traced
      refine ⟨_, ?_, local_statementBy .ret nofun (local_value hvalue.toLocal)⟩
      rw [skipSemicolon_eq, perform_append, perform_append]
      rfl
  | exprFails h =>
      obtain ⟨actions, rfl, hvalue⟩ := h.traced
      exact ⟨_, rfl, local_statementBy .expr nofun (local_valueFails hvalue.toLocal)⟩
  | expr h =>
      obtain ⟨actions, rfl, hvalue⟩ := h.traced
      refine ⟨_, ?_, local_statementBy .expr nofun (local_value hvalue.toLocal)⟩
      rw [skipSemicolon_eq, perform_append, perform_append]
      rfl

end Parser

end LetLang
