import LetLang.Proofs.Accounting
import LetLang.Proofs.Agreement

/-!
# `LetLang.Proofs.Operations` — a parser in use

Whoever holds a parser may call its steps and its rules in any order, and may change the dialect in
between. Nothing of this takes the parser off the list of its tokens: after any calls there is a place in
the list such that the current token is the one at the place, the next token is the one behind it, and
the cursor is in front of all others. The place is the number of moves that have been made, and no call
goes back.

So it makes no difference that tokens are read as they are needed, and of a source nothing matters but its
tokens.

## Contents
- `Operation`, `Parser.apply`, `Parser.after`: the calls, one and several.
- `Parser.Lasting`: what no step takes from a parser, with `Lasting.perform` for rules and `Lasting.after`
  for calls.
- `Parser.place`, `Parser.Passes`: the moves so far, and those between two states.
- `lasting_passes`, with `exists_passes_apply` and `exists_passes_after`: the moves of the calls.
- `Parser.Window`, `window_refines_tokens`: the place of a parser after any calls.
-/

namespace LetLang

/-! ## Calls -/

/-- A call that the holder of a parser can make. -/
inductive Operation where
  | advance
  | report (diagnostic : Diagnostic)
  | expect (kind : Kind)
  | expression (floor : Power)
  | operand (rule : OperandRule)
  | join (left : Expr)
  | statement
  | statementBy (rule : StatementRule)
  | program
  | enter (entry : Entry) (h : entry.atEnd = false)

namespace Parser

/-- The state behind a call. -/
def apply (s : Parser) : Operation → Parser
  | .advance => s.advance
  | .report diagnostic => s.report diagnostic
  | .expect kind => (s.expect kind).2
  | .expression floor => (s.expression floor).2
  | .operand rule => (s.operand rule).2
  | .join left => (s.join left).2
  | .statement => s.statement.2
  | .statementBy rule => (s.statementBy rule).2
  | .program => s.program.2
  | .enter entry h => { s with dialect := s.dialect.enter entry h }

/-- The state behind some calls, one after the other. -/
def after (s : Parser) (operations : List Operation) : Parser := operations.foldl apply s

/-! ## What all calls keep -/

/-- A property that no step takes from a parser, and no change of its dialect. A note that tells of a move
    is made by a move only, so of those nothing is asked. -/
structure Lasting (P : Parser → Prop) : Prop where
  advance : ∀ {s : Parser}, P s → P s.advance
  report : ∀ {s : Parser} (diagnostic : Diagnostic), P s → P (s.report diagnostic)
  note : ∀ {s : Parser} {event : Event}, event.visited? = none → P s → P (s.note event)
  change : ∀ {s : Parser} (dialect : Dialect), P s → P { s with dialect := dialect }

namespace Lasting

variable {P : Parser → Prop} {s t : Parser}

/-- **It lasts through the steps of every rule.** -/
theorem perform {actions : List Action} (h : Lasting P) (hs : P s)
    (hruled : ∀ action ∈ actions, action.Ruled) : P (s.perform actions) := by
  induction actions generalizing s with
  | nil => exact hs
  | cons action actions ih =>
      obtain ⟨hfirst, hmore⟩ := List.forall_mem_cons.mp hruled
      cases hfirst with
      | advance => exact ih (h.advance hs) hmore
      | operator kind power => exact ih (h.note rfl hs) hmore
      | report diagnostic => exact ih (h.report diagnostic hs) hmore

theorem run {call : Call} {result : Option Expr} (h : Lasting P) (hs : P s)
    (hrun : Run call s result t) : P t := by
  obtain ⟨actions, rfl, htraced⟩ := hrun.traced
  exact h.perform hs fun _ => htraced.shape.ruled

theorem attempt {rule : StatementRule} {result : Option Stmt} (h : Lasting P) (hs : P s)
    (hattempt : Attempt rule s result t) : P t := by
  obtain ⟨actions, rfl, hlocal⟩ := hattempt.traced
  exact h.perform hs fun _ => hlocal.shape.ruled

theorem loop {stmts : List Stmt} (h : Lasting P) (hs : P s) (hloop : Loop s stmts t) : P t := by
  induction hloop with
  | done => exact hs
  | step _ hattempt _ ih => exact ih (h.advance (h.attempt (h.note rfl hs) hattempt))

theorem expect (h : Lasting P) (hs : P s) (kind : Kind) : P (s.expect kind).2 := by
  unfold Parser.expect
  split
  · exact h.advance hs
  · exact h.report _ hs

theorem apply (h : Lasting P) (hs : P s) (operation : Operation) : P (s.apply operation) := by
  cases operation with
  | advance => exact h.advance hs
  | report diagnostic => exact h.report diagnostic hs
  | expect kind => exact h.expect hs kind
  | expression floor => exact h.run hs (run_expression floor s)
  | operand rule => exact h.run hs (run_operand rule s)
  | join left => exact h.run hs (run_join left s)
  | statement => exact h.attempt (h.note rfl hs) s.attempt_statement
  | statementBy rule => exact h.attempt hs (attempt_statementBy rule s)
  | program => exact h.note rfl (h.loop hs s.loop_statements)
  | enter entry hentry => exact h.change _ hs

/-- **It lasts through any calls.** -/
theorem after (h : Lasting P) (hs : P s) (operations : List Operation) : P (s.after operations) := by
  induction operations generalizing s with
  | nil => exact hs
  | cons operation operations ih => exact ih (h.apply hs operation)

end Lasting

/-! ## Moves -/

/-- How many moves the journal tells of. -/
def place (s : Parser) : Nat := s.visited.length

/-- From `s` to `t` the parser has moved on `n` times, and each move has been noted. -/
structure Passes (s : Parser) (n : Nat) (t : Parser) : Prop where
  reads : ∀ ⦃tokens⦄, s.Reads tokens → t.Reads (tokens.drop n)
  place : t.place = s.place + n

variable {s t u : Parser} {n m : Nat}

theorem Passes.refl (s : Parser) : s.Passes 0 s := ⟨fun _ h => h, rfl⟩

theorem Passes.trans (hst : s.Passes n t) (htu : t.Passes m u) : s.Passes (n + m) u where
  reads tokens hs := by
    have hu := htu.reads (hst.reads hs)
    rwa [List.drop_drop] at hu
  place := by
    rw [htu.place, hst.place]
    omega

theorem passes_advance (s : Parser) : s.Passes 1 s.advance where
  reads tokens hs := by
    rw [List.drop_one]
    exact hs.advance
  place := by simp [Parser.place]

theorem passes_report (s : Parser) (diagnostic : Diagnostic) : s.Passes 0 (s.report diagnostic) where
  reads _ hs := hs.report diagnostic
  place := by simp [Parser.place]

/-- A note of something else than a move. -/
theorem passes_note {event : Event} (h : event.visited? = none) : s.Passes 0 (s.note event) where
  reads _ hs := hs.note event
  place := by
    rw [Parser.place, visited_note, h, Option.toList_none, List.append_nil]
    rfl

/-- A change of the dialect is no move. -/
theorem passes_dialect (s : Parser) (dialect : Dialect) :
    s.Passes 0 { s with dialect := dialect } where
  reads _ hs := ⟨hs.current, hs.peek, hs.later, hs.spelled⟩
  place := rfl

/-- What is expected is one move, and what is missed is none. -/
theorem passes_expect (s : Parser) (kind : Kind) :
    s.Passes (if (s.expect kind).1.isSome then 1 else 0) (s.expect kind).2 := by
  unfold expect
  split
  · exact passes_advance s
  · exact passes_report s _

/-- **No call leads back**: behind any step the parser has come from `s` by some moves. -/
theorem lasting_passes (s : Parser) : Lasting fun t => ∃ n, s.Passes n t where
  advance h := by
    obtain ⟨n, hpasses⟩ := h
    exact ⟨_, hpasses.trans (passes_advance _)⟩
  report diagnostic h := by
    obtain ⟨n, hpasses⟩ := h
    exact ⟨_, hpasses.trans (passes_report _ diagnostic)⟩
  note hevent h := by
    obtain ⟨n, hpasses⟩ := h
    exact ⟨_, hpasses.trans (passes_note hevent)⟩
  change dialect h := by
    obtain ⟨n, hpasses⟩ := h
    exact ⟨_, hpasses.trans (passes_dialect _ dialect)⟩

theorem exists_passes_apply (s : Parser) (operation : Operation) :
    ∃ n, s.Passes n (s.apply operation) :=
  s.lasting_passes.apply ⟨0, .refl s⟩ operation

theorem exists_passes_after (s : Parser) (operations : List Operation) :
    ∃ n, s.Passes n (s.after operations) :=
  s.lasting_passes.after ⟨0, .refl s⟩ operations

end Parser

/-! ## The window -/

/-- The `n`-th of the tokens that are read from a cursor on, one after the other. -/
def Cursor.tokenAt : Cursor → Nat → Token
  | c, 0 => c.next.token
  | c, n + 1 => c.next.cursor.tokenAt n

/-- The end behind the tokens of a text is the first of the ends that follow them for ever. -/
theorem tokenize_getD (source : String) (n : Nat) :
    (tokenize source).getD n .eof = (Cursor.ofString source).tokens.getD n .eof := by
  rw [tokenize, List.getD_eq_getElem?_getD, List.getD_eq_getElem?_getD]
  by_cases hlt : n < (Cursor.ofString source).tokens.length
  · rw [List.getElem?_append_left hlt]
  · have hle := Nat.le_of_not_lt hlt
    rw [List.getElem?_append_right hle, List.getElem?_eq_none hle]
    cases n - (Cursor.ofString source).tokens.length <;> rfl

/-- The tokens of a text are those in front of the end. -/
theorem tokens_of_tokenize {source other : String} (h : tokenize source = tokenize other) :
    (Cursor.ofString source).tokens = (Cursor.ofString other).tokens :=
  List.append_cancel_right h

namespace Parser

/-- The parser stands at the place `k` of the tokens, which the end follows for ever: it holds two of
    them, and the cursor is in front of the others. -/
structure Window (s : Parser) (tokens : List Token) (k : Nat) : Prop where
  current : s.current = tokens.getD k .eof
  peek : s.peek = tokens.getD (k + 1) .eof
  later : ∀ n, s.cursor.tokenAt n = tokens.getD (k + 2 + n) .eof

variable {s : Parser}

/-- Behind the two tokens in hand come those that the cursor is in front of. -/
theorem tokenAt_cursor (s : Parser) (n : Nat) : s.tokenAt (n + 2) = s.cursor.tokenAt n := by
  induction n generalizing s with
  | zero => rfl
  | succ n ih => exact ih s.advance

theorem window_of_reads {source : String} {k : Nat}
    (h : s.Reads ((Cursor.ofString source).tokens.drop k)) : s.Window (tokenize source) k := by
  have hplace (n : Nat) : s.tokenAt n = (tokenize source).getD (k + n) .eof := by
    rw [h.tokenAt_eq, tokenize_getD, List.getD_eq_getElem?_getD, List.getElem?_drop,
      List.getD_eq_getElem?_getD]
  refine ⟨hplace 0, hplace 1, fun n => ?_⟩
  rw [← tokenAt_cursor, hplace]
  congr 1
  omega

/-- **Of a source nothing matters but its tokens**, in whatever dialect. -/
theorem program_congr (dialect : Dialect) {source other : String}
    (h : tokenize source = tokenize other) :
    (start dialect (.ofString other)).program.1 = (start dialect (.ofString source)).program.1 ∧
      (start dialect (.ofString other)).program.2.diagnostics =
        (start dialect (.ofString source)).program.2.diagnostics := by
  have hs := reads_start dialect (.ofString source)
  have hother := reads_start dialect (.ofString other)
  rw [← tokens_of_tokenize h] at hother
  have hagree : Agree (start dialect (.ofString source)) (start dialect (.ofString other)) :=
    agree_of_reads rfl hs hother
  obtain ⟨hstmts, hdiagnostics⟩ := hagree.statements_congr rfl
  exact ⟨congrArg Program.mk hstmts, hdiagnostics⟩

/-- **The tokens that are read as they are needed are those of the whole source.** Behind any calls, in
    any dialect, a parser has a window on the tokens of its source: it stands at the place to which its
    moves have led, holds the token at the place and the one behind it, and has all others ahead. An
    advance is one move, an expected token is one move, a missing one is none, and no call goes back. So
    sources with the same tokens give the same program and the same diagnostics. -/
theorem window_refines_tokens :
    (∀ (dialect : Dialect) (source : String) (operations : List Operation),
      let s := (start dialect (.ofString source)).after operations
      s.Window (tokenize source) s.place ∧ s.advance.place = s.place + 1 ∧
        (∀ kind, (s.expect kind).2.place = s.place + if (s.expect kind).1.isSome then 1 else 0) ∧
        ∀ operation, s.place ≤ (s.apply operation).place) ∧
    ∀ source other : String, tokenize source = tokenize other →
      (parse source).1 = (parse other).1 ∧
        (parse source).2.diagnostics = (parse other).2.diagnostics := by
  refine ⟨fun dialect source operations => ?_, fun source other h => program_congr .standard h.symm⟩
  intro s
  obtain ⟨n, hpasses⟩ := (start dialect (.ofString source)).exists_passes_after operations
  have hplace : s.place = n := by
    rw [hpasses.place, place, visited_start, List.length_nil, Nat.zero_add]
  refine ⟨?_, s.passes_advance.place, fun kind => (s.passes_expect kind).place, fun operation => ?_⟩
  · rw [hplace]
    exact window_of_reads (hpasses.reads (reads_start dialect _))
  · obtain ⟨m, hmore⟩ := s.exists_passes_apply operation
    rw [hmore.place]
    exact Nat.le_add_right _ _

/-- Two spellings of the same tokens, which lack an expression. -/
theorem window_refines_tokens_spelling :
    tokenize "let x=;1" = tokenize "let x\n=; 1" ∧
      (parse "let x=;1").1 = (parse "let x\n=; 1").1 ∧
      (parse "let x=;1").2.diagnostics = (parse "let x\n=; 1").2.diagnostics := by
  have htokens : tokenize "let x=;1" = tokenize "let x\n=; 1" := by decide +kernel
  exact ⟨htokens, window_refines_tokens.2 _ _ htokens⟩

end Parser

end LetLang
