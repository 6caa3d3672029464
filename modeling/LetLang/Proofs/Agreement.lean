import LetLang.Proofs.Trace

/-!
# `LetLang.Proofs.Agreement` — parsers with the same tokens in front of them

A rule is a list of steps that depends on the tokens in front of the parser, as far as the steps reach.
The loop over statements reaches the end of the source, so two parsers go through it by the same steps if
all tokens in front of them are the same. What has been recorded before plays no part in it: the steps add
to the records and never look at them.

## Contents
- `Alike.statement_eq`: one attempt, at a parser that is alike as far as the attempt reaches.
- `Action.reports`: the diagnostics that some steps record, with `diagnostics_perform`.
- `Parser.Agree`: parsers that are alike as far as any steps reach.
- `Loop.traced`: the loop is a list of steps as well, and `Agree.statements_eq` what follows from it.
-/

namespace LetLang

namespace Action

/-- The diagnostics that some steps record, in order. -/
def reports : List Action → List Diagnostic
  | [] => []
  | .advance :: actions => reports actions
  | .report diagnostic :: actions => diagnostic :: reports actions
  | .note _ :: actions => reports actions

end Action

namespace Parser

variable {s s' t : Parser} {tokens : List Token} {stmts : List Stmt}

/-- **Steps add to the records, and never look at them.** -/
theorem diagnostics_perform (s : Parser) (actions : List Action) :
    (s.perform actions).diagnostics.toList = s.diagnostics.toList ++ Action.reports actions := by
  induction actions generalizing s with
  | nil => exact (List.append_nil _).symm
  | cons action actions ih =>
      rw [perform_cons, ih]
      cases action with
      | advance | note => rfl
      | report diagnostic => simp [act, report, Action.reports]

/-- A parser that is alike makes the same attempt. -/
theorem Alike.statement_eq {n : Nat} {result : Option Stmt} {actions : List Action}
    (hs : Alike n s s')
    (h : Local (statementBy s.rule) (s.note (.statement s.current.kind)) result actions)
    (hreach : Action.reach actions ≤ n) :
    s'.statement = (result, (s'.note (.statement s.current.kind)).perform actions) := by
  have hcurrent := hs.current (Nat.lt_of_lt_of_le (Action.reach_pos actions) hreach)
  have hrule : s'.rule = s.rule := by rw [rule, rule, hs.dialect, hcurrent]
  have hanswer := h.answer ((Alike.note hs (.statement s.current.kind)).mono hreach)
  rw [← hanswer, ← hcurrent, ← hrule]
  rfl

/-! ## The same tokens up to the end -/

/-- The parsers have the same dialect, and all tokens in front of them are the same. -/
def Agree (s s' : Parser) : Prop := ∀ n, Alike n s s'

theorem agree_of_reads (hdialect : s'.dialect = s.dialect) (hs : s.Reads tokens)
    (hs' : s'.Reads tokens) : Agree s s' := by
  refine fun _ => ⟨hdialect, fun i _ => ?_⟩
  rw [hs.tokenAt_eq, hs'.tokenAt_eq]

theorem Agree.refl (s : Parser) : Agree s s := fun _ => ⟨rfl, fun _ _ => rfl⟩

theorem Agree.advance (h : Agree s s') : Agree s.advance s'.advance := fun n => (h (n + 1)).advance

theorem Agree.note (h : Agree s s') (event : Event) : Agree (s.note event) (s'.note event) :=
  fun n => (h n).note event

theorem Agree.perform (h : Agree s s') (actions : List Action) :
    Agree (s.perform actions) (s'.perform actions) :=
  fun _ => (h _).perform

/-- **The loop is a list of steps**, and a parser with the same tokens in front of it takes the same ones,
    with the same statements. -/
theorem Loop.traced (h : Loop s stmts t) :
    ∃ actions, ∀ s', Agree s s' → s'.statements = (stmts, s'.perform actions) := by
  induction h with
  | @done s heof =>
      refine ⟨[], fun s' hs' => ?_⟩
      have hcurrent : s'.current = s.current := (hs' 1).current Nat.one_pos
      rw [statements, if_pos (by rw [hcurrent, heof]), perform_nil]
  | @step s t u result stmts hne hattempt _ ih =>
      -- A note, the steps of the attempt, a move, and the steps of the attempts behind it.
      obtain ⟨actions, rfl, hlocal⟩ := hattempt.traced
      obtain ⟨more, hmore⟩ := ih
      refine ⟨.note (.statement s.current.kind) :: (actions ++ .advance :: more), fun s' hs' => ?_⟩
      have hcurrent : s'.current = s.current := (hs' 1).current Nat.one_pos
      have hstatement := (hs' _).statement_eq hlocal (Nat.le_refl _)
      have hrest := hmore _ ((hs'.note (.statement s.current.kind)).perform actions).advance
      rw [statements, if_neg (by rwa [hcurrent])]
      simp only [hstatement, hrest, perform_cons, perform_append]
      rfl

/-- **Parsers that agree read the same statements and record the same diagnostics**, whatever they have
    recorded before. -/
theorem Agree.statements_eq (h : Agree s s') :
    s'.statements.1 = s.statements.1 ∧
      ∃ ds, s.statements.2.diagnostics.toList = s.diagnostics.toList ++ ds ∧
        s'.statements.2.diagnostics.toList = s'.diagnostics.toList ++ ds := by
  obtain ⟨actions, hactions⟩ := s.loop_statements.traced
  rw [hactions s' h, hactions s (Agree.refl s)]
  exact ⟨rfl, Action.reports actions, diagnostics_perform s actions, diagnostics_perform s' actions⟩

/-- If they have recorded the same before, they have recorded the same behind the loop. -/
theorem Agree.statements_congr (h : Agree s s') (hsame : s'.diagnostics = s.diagnostics) :
    s'.statements.1 = s.statements.1 ∧
      s'.statements.2.diagnostics = s.statements.2.diagnostics := by
  obtain ⟨hstmts, ds, hds, hds'⟩ := h.statements_eq
  refine ⟨hstmts, Array.toList_inj.mp ?_⟩
  rw [hds', hds, hsame]

end Parser

end LetLang
