import LetLang.Proofs.Trace

/-!
# `LetLang.Proofs.Accounting` — a missing result has one diagnostic

Whatever rule is applied, and in whatever state and dialect: either it gives something and records
nothing, or it gives nothing and records one diagnostic. So the diagnostics of a program and its
statements together are as many as the attempts that were made.

A journal tells how many attempts there were, and which tokens the parser moved on to. Of the steps of a
rule none is an attempt, and each move is noted once.

## Contents
- `Parser.visited`, `Parser.attempted`: the moves and the attempts that a journal tells of, with what
  each step adds to them, `length_visited_perform` and `attempted_perform`.
- `Loop.attempts`: every attempt is a statement or a diagnostic.
- `Parser.Accounted`, `results_accounted`: the law for all rules and for whole programs.
-/

namespace LetLang

/-! ## What a journal tells -/

/-- The token that the parser moved on to, if the event is a move. -/
@[simp] def Event.visited? : Event → Option Token
  | advanced token => some token
  | _ => none

/-- The kind of the token that a statement was attempted at, if the event is an attempt. -/
@[simp] def Event.attempted? : Event → Option Kind
  | statement kind => some kind
  | _ => none

namespace Parser

/-- The tokens that the parser has moved on to. -/
def visited (s : Parser) : List Token := s.journal.toList.filterMap Event.visited?

/-- The kinds of the tokens at which it has attempted statements. -/
def attempted (s : Parser) : List Kind := s.journal.toList.filterMap Event.attempted?

section

/-- Reading a token is noted only where a byte is refused. -/
theorem filterMap_scanEvents {α : Type} {f : Event → Option α}
    (hf : ∀ byte offset, f (.illegalByte byte offset) = none) (scan : Scan) :
    (scanEvents scan).toList.filterMap f = [] := by
  unfold scanEvents
  split <;> simp [hf]

@[simp] theorem visited?_scanEvents (scan : Scan) :
    (scanEvents scan).toList.filterMap Event.visited? = [] :=
  filterMap_scanEvents (fun _ _ => rfl) scan

@[simp] theorem attempted?_scanEvents (scan : Scan) :
    (scanEvents scan).toList.filterMap Event.attempted? = [] :=
  filterMap_scanEvents (fun _ _ => rfl) scan

variable (s : Parser)

@[simp] theorem visited_start (dialect : Dialect) (c : Cursor) : (start dialect c).visited = [] := by
  simp only [visited, start, Array.toList_append, List.filterMap_append, visited?_scanEvents,
    List.append_nil]

@[simp] theorem attempted_start (dialect : Dialect) (c : Cursor) :
    (start dialect c).attempted = [] := by
  simp only [attempted, start, Array.toList_append, List.filterMap_append, attempted?_scanEvents,
    List.append_nil]

@[simp] theorem visited_advance : s.advance.visited = s.visited ++ [s.peek] := by
  simp only [visited, advance, Array.toList_push, Array.toList_append, List.filterMap_append,
    visited?_scanEvents, List.append_nil]
  rfl

@[simp] theorem attempted_advance : s.advance.attempted = s.attempted := by
  simp only [attempted, advance, Array.toList_push, Array.toList_append, List.filterMap_append,
    attempted?_scanEvents, List.append_nil]
  exact List.append_nil _

@[simp] theorem visited_report (diagnostic : Diagnostic) :
    (s.report diagnostic).visited = s.visited := by
  simp [visited, report]

@[simp] theorem attempted_report (diagnostic : Diagnostic) :
    (s.report diagnostic).attempted = s.attempted := by
  simp [attempted, report]

@[simp] theorem visited_note (event : Event) :
    (s.note event).visited = s.visited ++ event.visited?.toList := by
  cases event <;> simp [visited, note]

@[simp] theorem attempted_note (event : Event) :
    (s.note event).attempted = s.attempted ++ event.attempted?.toList := by
  cases event <;> simp [attempted, note]

end

/-! ## What the steps of a rule add -/

variable {s t : Parser}

/-- **The moves of a journal are the moves of the steps.** -/
theorem length_visited_perform {α : Type} {result : Option α} {actions : List Action}
    (h : Traces result actions) :
    (s.perform actions).visited.length = s.visited.length + Action.moves actions := by
  have hall : ∀ action ∈ actions, action.Ruled := fun _ => h.ruled
  clear h
  induction actions generalizing s with
  | nil => rfl
  | cons action actions ih =>
      have hmore := ih (s := s.act action) fun a ha => hall a (List.mem_cons_of_mem _ ha)
      rw [perform_cons, hmore]
      cases hall action List.mem_cons_self with
      | advance => simp [act, Action.moves]; omega
      | operator => simp [act, Action.moves]
      | report => simp [act, Action.moves]

/-- No step of a rule is an attempt at a statement. -/
theorem attempted_perform {α : Type} {result : Option α} {actions : List Action}
    (h : Traces result actions) : (s.perform actions).attempted = s.attempted := by
  have hall : ∀ action ∈ actions, action.Ruled := fun _ => h.ruled
  clear h
  induction actions generalizing s with
  | nil => rfl
  | cons action actions ih =>
      have hmore := ih (s := s.act action) fun a ha => hall a (List.mem_cons_of_mem _ ha)
      rw [perform_cons, hmore]
      cases hall action List.mem_cons_self with
      | advance => exact attempted_advance s
      | operator => simp [act]
      | report => exact attempted_report s _

/-! ## What an attempt and the loop add -/

variable {result : Option Stmt} {stmts : List Stmt}

/-- An attempt is noted once, and no attempt is made within another. -/
theorem Attempt.attempted_eq {rule : StatementRule} {kind : Kind}
    (h : Attempt rule (s.note (.statement kind)) result t) : t.attempted = s.attempted ++ [kind] := by
  obtain ⟨actions, rfl, hlocal⟩ := h.traced
  rw [attempted_perform hlocal.shape, attempted_note]
  rfl

/-- **Every attempt is a statement or a diagnostic**, and none is both. -/
theorem Loop.attempts (h : Loop s stmts t) :
    ∃ ds, t.diagnostics = s.diagnostics ++ ds ∧
      t.attempted.length = s.attempted.length + stmts.length + ds.size := by
  induction h with
  | done => exact ⟨#[], by simp⟩
  | @step s t u result stmts _ hattempt _ ih =>
      obtain ⟨ds, hds, hlength⟩ := ih
      have haccounts := hattempt.accounts
      have hone : t.advance.attempted.length = s.attempted.length + 1 := by
        rw [attempted_advance, hattempt.attempted_eq, List.length_append]
        rfl
      cases result with
      | some stmt =>
          have hsame : t.advance.diagnostics = s.diagnostics := haccounts
          refine ⟨ds, by rw [hds, hsame], ?_⟩
          simp only [Option.toList_some, List.singleton_append, List.length_cons]
          omega
      | none =>
          obtain ⟨d, hd⟩ := haccounts
          have hpush : t.advance.diagnostics = s.diagnostics ++ #[d] := hd
          refine ⟨#[d] ++ ds, by rw [hds, hpush, Array.append_assoc], ?_⟩
          simp only [Option.toList_none, List.nil_append, Array.size_append, List.size_toArray,
            List.length_singleton]
          omega

/-! ## All rules -/

/-- From the state `s` on, `r` is either something with nothing recorded, or nothing with one diagnostic
    recorded. -/
def Accounted {α : Type} (s : Parser) (r : Option α × Parser) : Prop :=
  (r.1 = none ↔ ∃ d, r.2.diagnostics = s.diagnostics.push d) ∧
    (r.1.isSome = true ↔ r.2.diagnostics = s.diagnostics)

theorem Accounts.accounted {α : Type} {r : Option α × Parser} (h : s.Accounts r.1 r.2) :
    s.Accounted r := by
  obtain ⟨result, t⟩ := r
  have hpush : ∀ d, s.diagnostics ≠ s.diagnostics.push d := by
    intro d heq
    have hsize := congrArg Array.size heq
    rw [Array.size_push] at hsize
    omega
  cases result with
  | some value =>
      have hsame : t.diagnostics = s.diagnostics := h
      simp [Accounted, hsame, hpush]
  | none =>
      obtain ⟨d, hd⟩ : ∃ d, t.diagnostics = s.diagnostics.push d := h
      have hne : t.diagnostics ≠ s.diagnostics := by
        rw [hd]
        exact (hpush d).symm
      exact ⟨⟨fun _ => ⟨d, hd⟩, fun _ => rfl⟩, ⟨nofun, fun hsame => absurd hsame hne⟩⟩

theorem expect_accounts (s : Parser) (kind : Kind) :
    s.Accounts (s.expect kind).1 (s.expect kind).2 := by
  unfold expect
  split
  · exact rfl
  · exact ⟨_, rfl⟩

/-- **Something without a diagnostic, or nothing with exactly one.** So it is for every rule, in every
    state and dialect. The statements of a program and the diagnostics that it adds are together as many
    as the attempts, and if it adds none, every attempt has given a statement. -/
theorem results_accounted (s : Parser) :
    (∀ floor, s.Accounted (s.expression floor)) ∧ (∀ rule, s.Accounted (s.operand rule)) ∧
    (∀ left, s.Accounted (s.join left)) ∧ s.Accounted s.statement ∧
    (∀ rule, s.Accounted (s.statementBy rule)) ∧ (∀ kind, s.Accounted (s.expect kind)) ∧
    ∃ ds, s.program.2.diagnostics = s.diagnostics ++ ds ∧
      s.program.2.attempted.length = s.attempted.length + s.program.1.statements.length + ds.size ∧
      (ds = #[] ↔
        s.program.2.attempted.length = s.attempted.length + s.program.1.statements.length) := by
  refine ⟨?_, ?_, ?_, ?_, ?_, ?_, ?_⟩
  · intro floor
    exact (run_expression floor s).accounts.accounted
  · intro rule
    exact (run_operand rule s).accounts.accounted
  · intro left
    exact (run_join left s).accounts.accounted
  · exact s.attempt_statement.accounts.accounted
  · intro rule
    exact (attempt_statementBy rule s).accounts.accounted
  · intro kind
    exact (s.expect_accounts kind).accounted
  · obtain ⟨ds, hds, hlength⟩ := s.loop_statements.attempts
    have hprogram : s.program.2.attempted.length =
        s.attempted.length + s.program.1.statements.length + ds.size := by
      rw [program, attempted_note]
      simpa using hlength
    refine ⟨ds, hds, hprogram, ?_⟩
    rw [hprogram, ← Array.size_eq_zero_iff]
    omega

end Parser

end LetLang
