import LetLang.Proofs.Run

/-!
# `LetLang.Proofs.Steps` — the steps that a run is made of

A rule does three sorts of things to the state of a parser: it moves on, it records a diagnostic, and it
makes notes. So a run is a list of steps. On the way there are only moves and operators taken; a rule
that gives nothing records one diagnostic, and does so last.

Which steps these are depends on a few tokens only: on those that are moved over, the one the parser
comes to stand at, and the one behind it where a rule has looked that far.

## Contents
- `Action`, `Parser.perform`: steps, and what a list of them makes of a parser.
- `Action.moves`, `Action.reach`: how far some steps lead, and how many tokens they depend on.
- `Traces`: the steps of a rule, by its result.
- `Parser.tokenAt`, `Parser.Alike`: the tokens in front of a parser, and parsers that share some of them.
-/

namespace LetLang

/-! ## Steps -/

/-- One thing that a rule does to the state of a parser. -/
inductive Action where
  | advance
  | report (diagnostic : Diagnostic)
  | note (event : Event)

namespace Action

/-- A step on the way: the parser moves on, or takes an operator. -/
inductive Quiet : Action → Prop where
  | advance : Quiet .advance
  | operator (kind : Kind) (power : Power) : Quiet (.note (.operator kind power))

/-- A step that a rule can take. -/
inductive Ruled : Action → Prop where
  | advance : Ruled .advance
  | operator (kind : Kind) (power : Power) : Ruled (.note (.operator kind power))
  | report (diagnostic : Diagnostic) : Ruled (.report diagnostic)

theorem Quiet.ruled {action : Action} (h : action.Quiet) : action.Ruled := by
  cases h with
  | advance => exact .advance
  | operator kind power => exact .operator kind power

/-- How many of the steps move on. -/
def moves : List Action → Nat
  | [] => 0
  | .advance :: actions => moves actions + 1
  | .report _ :: actions => moves actions
  | .note _ :: actions => moves actions

end Action

/-- How far behind the current token is the one that a diagnostic blames? -/
def Diagnostic.lookahead : Diagnostic → Nat
  | unexpectedToken _ _ => 1
  | noOperand _ => 0
  | badInteger _ => 0

namespace Action

/-- How many tokens, from the current one on, the steps depend on. A rule that records nothing has seen
    the token behind the last one. -/
def reach : List Action → Nat
  | [] => 2
  | .advance :: actions => reach actions + 1
  | .report diagnostic :: _ => diagnostic.lookahead + 1
  | .note _ :: actions => reach actions

variable {actions more : List Action}

theorem moves_append : moves (actions ++ more) = moves actions + moves more := by
  induction actions with
  | nil => simp [moves]
  | cons action actions ih =>
      cases action with
      | advance =>
          simp only [List.cons_append, moves, ih]
          omega
      | report | note => exact ih

theorem reach_pos (actions : List Action) : 0 < reach actions := by
  induction actions with
  | nil => exact Nat.zero_lt_two
  | cons action actions ih =>
      cases action with
      | advance => exact Nat.succ_pos _
      | report => exact Nat.succ_pos _
      | note => exact ih

/-- Steps behind quiet ones depend on so many tokens more as the quiet ones move over. -/
theorem reach_append (h : ∀ action ∈ actions, action.Quiet) :
    reach (actions ++ more) = moves actions + reach more := by
  induction actions with
  | nil => simp [moves]
  | cons action actions ih =>
      have hmore := ih fun action hmem => h action (List.mem_cons_of_mem _ hmem)
      cases h action List.mem_cons_self with
      | advance => simp only [List.cons_append, reach, moves, hmore]; omega
      | operator => simp only [List.cons_append, reach, moves, hmore]

/-- Behind quiet steps nothing but the next token has been looked at. -/
theorem reach_quiet (h : ∀ action ∈ actions, action.Quiet) : reach actions = moves actions + 2 := by
  have happend : reach (actions ++ []) = _ := reach_append h
  rwa [List.append_nil] at happend

end Action

/-- The steps of a rule that gives `result`. If it gives something, they are quiet; if it gives nothing,
    the last one says why. -/
def Traces {α : Type} (result : Option α) (actions : List Action) : Prop :=
  match result with
  | some _ => ∀ action ∈ actions, action.Quiet
  | none => ∃ quiet diagnostic, actions = quiet ++ [.report diagnostic] ∧
      ∀ action ∈ quiet, action.Quiet

section

variable {α β : Type} {actions more : List Action} {result : Option α}

/-- All steps of a rule are ones that a rule can take. -/
theorem Traces.ruled {action : Action} (h : Traces result actions) (hmem : action ∈ actions) :
    action.Ruled := by
  cases result with
  | some _ => exact (h action hmem).ruled
  | none =>
      obtain ⟨quiet, diagnostic, rfl, hquiet⟩ := h
      rcases List.mem_append.mp hmem with hmem | hmem
      · exact (hquiet action hmem).ruled
      · rw [List.mem_singleton.mp hmem]
        exact .report diagnostic

theorem traces_nil (value : α) : Traces (some value) [] := List.forall_mem_nil _

theorem traces_report (diagnostic : Diagnostic) :
    Traces (none : Option α) [.report diagnostic] :=
  ⟨[], diagnostic, rfl, List.forall_mem_nil _⟩

theorem traces_advance (value : α) : Traces (some value) [.advance] := by
  intro action hmem
  rw [List.mem_singleton.mp hmem]
  exact .advance

/-- Quiet steps lead to the steps of a rule. -/
theorem Traces.append {value : β} (h : Traces (some value) actions) (hmore : Traces result more) :
    Traces result (actions ++ more) := by
  cases result with
  | some _ =>
      intro action hmem
      rcases List.mem_append.mp hmem with hmem | hmem
      · exact h action hmem
      · exact hmore action hmem
  | none =>
      obtain ⟨quiet, diagnostic, rfl, hquiet⟩ := hmore
      refine ⟨actions ++ quiet, diagnostic, (List.append_assoc ..).symm, ?_⟩
      intro action hmem
      rcases List.mem_append.mp hmem with hmem | hmem
      · exact h action hmem
      · exact hquiet action hmem

theorem Traces.cons {action : Action} (hquiet : action.Quiet) (h : Traces result actions) :
    Traces result (action :: actions) := by
  have hone : Traces (some ()) [action] := by
    intro a ha
    rw [List.mem_singleton.mp ha]
    exact hquiet
  exact hone.append h

end

namespace Parser

/-- What one step makes of a parser. -/
def act (s : Parser) : Action → Parser
  | .advance => s.advance
  | .report diagnostic => s.report diagnostic
  | .note event => s.note event

/-- What some steps make of a parser, one after the other. -/
def perform (s : Parser) (actions : List Action) : Parser := actions.foldl act s

@[simp] theorem perform_nil (s : Parser) : s.perform [] = s := rfl

@[simp] theorem perform_cons (s : Parser) (action : Action) (actions : List Action) :
    s.perform (action :: actions) = (s.act action).perform actions := rfl

theorem perform_append (s : Parser) (actions more : List Action) :
    s.perform (actions ++ more) = (s.perform actions).perform more :=
  List.foldl_append

/-! ## The tokens in front of a parser -/

/-- The token that is `n` places behind the current one. -/
def tokenAt : Parser → Nat → Token
  | s, 0 => s.current
  | s, n + 1 => s.advance.tokenAt n

/-- What has been recorded plays no part in the tokens to come. -/
theorem tokenAt_congr {s t : Parser} (hcursor : s.cursor = t.cursor) (hcurrent : s.current = t.current)
    (hpeek : s.peek = t.peek) (n : Nat) : s.tokenAt n = t.tokenAt n := by
  induction n generalizing s t with
  | zero => exact hcurrent
  | succ n ih =>
      refine ih ?_ hpeek ?_
      · simp only [advance, hcursor]
      · simp only [advance, hcursor]

@[simp] theorem tokenAt_report (s : Parser) (diagnostic : Diagnostic) (n : Nat) :
    (s.report diagnostic).tokenAt n = s.tokenAt n :=
  tokenAt_congr (s := s.report diagnostic) (t := s) rfl rfl rfl n

@[simp] theorem tokenAt_note (s : Parser) (event : Event) (n : Nat) :
    (s.note event).tokenAt n = s.tokenAt n :=
  tokenAt_congr (s := s.note event) (t := s) rfl rfl rfl n

/-- A parser that reads a list of tokens has them in front of it, and then the end for ever. -/
theorem Reads.tokenAt_eq {s : Parser} {tokens : List Token} (h : s.Reads tokens) (n : Nat) :
    s.tokenAt n = tokens.getD n .eof := by
  induction n generalizing s tokens with
  | zero => cases tokens <;> exact h.current
  | succ n ih =>
      rw [tokenAt, ih h.advance]
      cases tokens <;> simp

/-- The parsers have the same dialect, and the same `n` tokens in front of them. -/
structure Alike (n : Nat) (s s' : Parser) : Prop where
  dialect : s'.dialect = s.dialect
  tokens : ∀ i < n, s'.tokenAt i = s.tokenAt i

variable {n m : Nat} {s s' : Parser}

namespace Alike

theorem mono (h : Alike n s s') (hle : m ≤ n) : Alike m s s' :=
  ⟨h.dialect, fun i hi => h.tokens i (Nat.lt_of_lt_of_le hi hle)⟩

theorem current (h : Alike n s s') (hn : 0 < n) : s'.current = s.current := h.tokens 0 hn

theorem peek (h : Alike n s s') (hn : 1 < n) : s'.peek = s.peek := h.tokens 1 hn

theorem advance (h : Alike (n + 1) s s') : Alike n s.advance s'.advance :=
  ⟨h.dialect, fun i hi => h.tokens (i + 1) (Nat.succ_lt_succ hi)⟩

theorem report (h : Alike n s s') (diagnostic : Diagnostic) :
    Alike n (s.report diagnostic) (s'.report diagnostic) :=
  ⟨h.dialect, by simpa using h.tokens⟩

theorem note (h : Alike n s s') (event : Event) : Alike n (s.note event) (s'.note event) :=
  ⟨h.dialect, by simpa using h.tokens⟩

/-- **The same steps take parsers that are alike to parsers that are alike.** -/
theorem perform {actions : List Action} (h : Alike (Action.moves actions + n) s s') :
    Alike n (s.perform actions) (s'.perform actions) := by
  induction actions generalizing s s' with
  | nil => simpa [Action.moves] using h
  | cons action actions ih =>
      cases action with
      | advance =>
          have hadvance : Alike (Action.moves actions + n + 1) s s' := by
            refine h.mono ?_
            rw [Action.moves]
            omega
          exact ih hadvance.advance
      | report diagnostic => exact ih (Alike.report h diagnostic)
      | note event => exact ih (Alike.note h event)

theorem currentPower (h : Alike n s s') (hn : 0 < n) : s'.currentPower = s.currentPower := by
  rw [Parser.currentPower, Parser.currentPower, h.dialect, h.current hn]

theorem continues (h : Alike n s s') (hn : 1 < n) (floor : Power) :
    s'.continues floor = s.continues floor := by
  rw [Parser.continues, Parser.continues, peekPower, peekPower, h.dialect, h.peek hn]

end Alike

/-- The steps that take the next token as an operator. -/
def operatorActions (s : Parser) : List Action :=
  [.advance, .note (.operator s.peek.kind s.advance.currentPower)]

theorem traces_operatorActions (s : Parser) : Traces (some ()) s.operatorActions := by
  intro action hmem
  simp only [operatorActions, List.mem_cons, List.not_mem_nil, or_false] at hmem
  rcases hmem with rfl | rfl
  · exact .advance
  · exact .operator _ _

theorem takeOperator_eq (s : Parser) : s.takeOperator = s.perform s.operatorActions := rfl

theorem Alike.takeOperator (h : Alike n s s') (hn : 1 < n) :
    s'.takeOperator = s'.perform s.operatorActions := by
  obtain ⟨n, rfl⟩ : ∃ m, n = m + 1 := ⟨n - 1, by omega⟩
  rw [takeOperator_eq, operatorActions, operatorActions, h.peek hn,
    h.advance.currentPower (by omega)]

end Parser

end LetLang
