import LetLang.Proofs.Operations
import LetLang.Proofs.Positions

/-!
# `LetLang.Proofs.Frames` — what a rule sees, and what it leaves alone

A rule sees the two tokens in hand, the cursor and the dialect, and nothing else of a parser. It moves the
first three and leaves the dialect as it is. To the diagnostics it adds some at the end, which ones has
nothing to do with those that are there already. All this follows from one fact: a rule is a list of steps
(`Run.traced`, `Attempt.traced`, `Loop.traced`), and parsers that share what a rule sees take the same steps.

So there is no difference between a parser that has come some way and a new one whose cursor has read as many
tokens as the first one has moved over. What has happened on the way has left its traces in the records alone.

## Contents
- `Parser.Abreast`: parsers that share what a rule sees, with `Abreast.perform`.
- `Parser.Framed`: two outcomes that differ in the records alone, with `Abreast.framed`.
- `Parser.Interchangeable`, `Abreast.interchangeable`: the outcomes of all rules.
- `Parser.OnCourse`: a parser that is abreast of a new one, with `lasting_onCourse`.
- `rules_framed`: parsers that are abreast, and parsers that have come some way.
-/

namespace LetLang

namespace Parser

/-! ## Parsers abreast of each other -/

/-- The parsers hold the same tokens, and the cursor and the dialect are the same. Nothing is said of what
    they have recorded. -/
structure Abreast (s s' : Parser) : Prop where
  dialect : s'.dialect = s.dialect
  cursor : s'.cursor = s.cursor
  current : s'.current = s.current
  peek : s'.peek = s.peek

variable {s s' t : Parser} {α : Type} {result : Option α} {actions : List Action}

namespace Abreast

theorem refl (s : Parser) : s.Abreast s := ⟨rfl, rfl, rfl, rfl⟩

theorem trans (h : s.Abreast s') (h' : s'.Abreast t) : s.Abreast t where
  dialect := h'.dialect.trans h.dialect
  cursor := h'.cursor.trans h.cursor
  current := h'.current.trans h.current
  peek := h'.peek.trans h.peek

theorem advance (h : s.Abreast s') : s.advance.Abreast s'.advance where
  dialect := h.dialect
  cursor := congrArg (fun c => c.next.cursor) h.cursor
  current := h.peek
  peek := congrArg (fun c => c.next.token) h.cursor

/-- Records can be added on either side. -/
theorem report (h : s.Abreast s') (diagnostic diagnostic' : Diagnostic) :
    (s.report diagnostic).Abreast (s'.report diagnostic') :=
  ⟨h.dialect, h.cursor, h.current, h.peek⟩

theorem note (h : s.Abreast s') (event event' : Event) :
    (s.note event).Abreast (s'.note event') :=
  ⟨h.dialect, h.cursor, h.current, h.peek⟩

/-- **The same steps keep parsers abreast.** -/
theorem perform (h : s.Abreast s') (actions : List Action) :
    (s.perform actions).Abreast (s'.perform actions) := by
  induction actions generalizing s s' with
  | nil => exact h
  | cons action actions ih =>
      cases action with
      | advance => exact ih h.advance
      | report diagnostic => exact ih (h.report diagnostic diagnostic)
      | note event => exact ih (h.note event event)

/-- They have the same tokens in front of them. -/
theorem agree (h : s.Abreast s') : Agree s s' := fun _ =>
  ⟨h.dialect, fun i _ => tokenAt_congr h.cursor h.current h.peek i⟩

end Abreast

/-- No step changes the dialect. -/
theorem dialect_perform (s : Parser) (actions : List Action) :
    (s.perform actions).dialect = s.dialect := by
  induction actions generalizing s with
  | nil => rfl
  | cons action actions ih =>
      rw [perform_cons, ih]
      cases action <;> rfl

/-! ## Two outcomes -/

/-- From `s` and from `s'` on, `r` and `r'` are the same outcome: the same result, parsers that are abreast
    again, a dialect that is left as it was, and the same diagnostics behind those that were there. -/
structure Framed {α : Type} (s s' : Parser) (r r' : α × Parser) : Prop where
  result : r'.1 = r.1
  abreast : r.2.Abreast r'.2
  dialect : r.2.dialect = s.dialect
  diagnostics : ∃ ds, r.2.diagnostics = s.diagnostics ++ ds ∧ r'.2.diagnostics = s'.diagnostics ++ ds

/-- **A rule that is a list of steps has the same outcome for parsers that are abreast.** -/
theorem Abreast.framed {α : Type} {f : Parser → α × Parser} {result : α} (h : s.Abreast s')
    (actions : List Action) (hf : ∀ s', Agree s s' → f s' = (result, s'.perform actions)) :
    Framed s s' (f s) (f s') := by
  have hdiagnostics (t : Parser) : (t.perform actions).diagnostics =
      t.diagnostics ++ (Action.reports actions).toArray := by
    rw [← Array.toList_inj, diagnostics_perform, Array.toList_append]
  rw [hf s (Agree.refl s), hf s' h.agree]
  exact ⟨rfl, h.perform actions, dialect_perform s actions, _, hdiagnostics s, hdiagnostics s'⟩

/-- Every rule has the same outcome for both parsers. -/
structure Interchangeable (s s' : Parser) : Prop where
  advance : Framed s s' ((), s.advance) ((), s'.advance)
  expect : ∀ kind, Framed s s' (s.expect kind) (s'.expect kind)
  expression : ∀ floor, Framed s s' (s.expression floor) (s'.expression floor)
  operand : ∀ rule, Framed s s' (s.operand rule) (s'.operand rule)
  join : ∀ left, Framed s s' (s.join left) (s'.join left)
  statement : Framed s s' s.statement s'.statement
  statementBy : ∀ rule, Framed s s' (s.statementBy rule) (s'.statementBy rule)
  program : Framed s s' s.program s'.program

theorem expect_traced (s : Parser) (kind : Kind) :
    ∃ actions, ∀ s', Agree s s' → s'.expect kind = ((s.expect kind).1, s'.perform actions) := by
  by_cases hkind : s.peek.kind = kind
  · refine ⟨[.advance], fun s' hs => ?_⟩
    have hpeek : s'.peek = s.peek := (hs 2).peek Nat.one_lt_two
    rw [expect_of_eq hkind, expect_of_eq (hpeek ▸ hkind), hpeek]
    rfl
  · refine ⟨[.report (.unexpectedToken kind s.peek.kind)], fun s' hs => ?_⟩
    have hpeek : s'.peek = s.peek := (hs 2).peek Nat.one_lt_two
    rw [expect_of_ne hkind, expect_of_ne (hpeek ▸ hkind), hpeek]
    rfl

/-- **Parsers that are abreast can stand in for each other.** -/
theorem Abreast.interchangeable (h : s.Abreast s') : s.Interchangeable s' where
  advance := h.framed [.advance] (f := fun t => ((), t.advance)) fun _ _ => rfl
  expect kind := by
    obtain ⟨actions, hactions⟩ := s.expect_traced kind
    exact h.framed actions hactions
  expression floor := by
    obtain ⟨actions, _, htraced⟩ := (run_expression floor s).traced
    exact h.framed actions fun s' hs => htraced.answer (hs _)
  operand rule := by
    obtain ⟨actions, _, htraced⟩ := (run_operand rule s).traced
    exact h.framed actions fun s' hs => htraced.answer (hs _)
  join left := by
    obtain ⟨actions, _, htraced⟩ := (run_join left s).traced
    exact h.framed actions fun s' hs => htraced.answer (hs _)
  statement := by
    obtain ⟨actions, _, hlocal⟩ := s.attempt_statement.traced
    exact h.framed (.note _ :: actions) fun s' hs =>
      (hs _).statement_eq hlocal (Nat.le_refl _)
  statementBy rule := by
    obtain ⟨actions, _, hlocal⟩ := (attempt_statementBy rule s).traced
    exact h.framed actions fun s' hs => hlocal.answer (hs _)
  program := by
    -- The note behind the loop tells of all diagnostics, so it may differ; but it is a record as well.
    obtain ⟨actions, hactions⟩ := s.loop_statements.traced
    have hloop := h.framed actions hactions
    exact ⟨congrArg Program.mk hloop.result, hloop.abreast.note _ _, hloop.dialect, hloop.diagnostics⟩

/-! ## Parsers that have come some way -/

variable {c : Cursor}

/-- One more token is read behind the others. -/
theorem after_replicate_next (c : Cursor) (k : Nat) :
    c.after (List.replicate (k + 1) .next) = (c.after (List.replicate k .next)).next.cursor := by
  rw [List.replicate_succ', Cursor.after, List.foldl_append]
  rfl

/-- The parser is abreast of a new one with its dialect, at a cursor that has read from `c` on as many
    tokens as the parser has moved over. -/
def OnCourse (c : Cursor) (s : Parser) : Prop :=
  (start s.dialect (c.after (List.replicate s.place .next))).Abreast s

theorem onCourse_start (dialect : Dialect) (c : Cursor) : OnCourse c (start dialect c) := by
  unfold OnCourse
  rw [place, visited_start]
  exact Abreast.refl _

/-- A new parser that moves on is abreast of the one that begins a token later. -/
theorem OnCourse.advance (h : OnCourse c s) : OnCourse c s.advance := by
  unfold OnCourse at h ⊢
  rw [s.passes_advance.place, after_replicate_next]
  have hlater : (start s.dialect (c.after (List.replicate s.place .next)).next.cursor).Abreast
      (start s.dialect (c.after (List.replicate s.place .next))).advance := ⟨rfl, rfl, rfl, rfl⟩
  exact hlater.trans h.advance

/-- Neither records nor the dialect take a parser off its course. -/
theorem OnCourse.stay (h : OnCourse c s) (hplace : t.place = s.place) (hcursor : t.cursor = s.cursor)
    (hcurrent : t.current = s.current) (hpeek : t.peek = s.peek) : OnCourse c t := by
  unfold OnCourse
  rw [hplace]
  exact ⟨rfl, hcursor.trans h.cursor, hcurrent.trans h.current, hpeek.trans h.peek⟩

/-- **No call takes a parser off its course.** -/
theorem lasting_onCourse (c : Cursor) : Lasting (OnCourse c) where
  advance h := h.advance
  report diagnostic h := h.stay (passes_report _ diagnostic).place rfl rfl rfl
  note hevent h := h.stay (passes_note hevent).place rfl rfl rfl
  change dialect h := h.stay (passes_dialect _ dialect).place rfl rfl rfl

/-- Moves are counted, and leave the dialect as it is. -/
theorem after_advances (s : Parser) (k : Nat) :
    (s.after (List.replicate k .advance)).place = s.place + k ∧
      (s.after (List.replicate k .advance)).dialect = s.dialect := by
  induction k generalizing s with
  | zero => exact ⟨rfl, rfl⟩
  | succ k ih =>
      obtain ⟨hplace, hdialect⟩ := ih s.advance
      refine ⟨hplace.trans ?_, hdialect⟩
      rw [s.passes_advance.place]
      omega

/-! ## The law of frames -/

/-- **What is recorded is never read.** Parsers that are abreast give the same with every rule, whatever
    they have recorded: they are abreast again behind it, their dialect is as it was, and both have the
    same diagnostics behind those that they had. So a parser behind any calls goes on as a new one with
    its dialect does, over a cursor that has read as many tokens as the parser has moved over; and if its
    calls were `k` moves, these are `k` tokens, whatever diagnostics have been recorded meanwhile. -/
theorem rules_framed :
    (∀ s s' : Parser, s.Abreast s' → s.Interchangeable s') ∧
    (∀ (dialect : Dialect) (c : Cursor) (operations : List Operation),
      let s := (start dialect c).after operations
      (start s.dialect (c.after (List.replicate s.place .next))).Interchangeable s) ∧
    ∀ (dialect : Dialect) (c : Cursor) (k : Nat) (diagnostics : Array Diagnostic),
      let s := (start dialect c).after (List.replicate k .advance)
      (start dialect (c.after (List.replicate k .next))).Interchangeable
        { s with diagnostics := diagnostics } := by
  refine ⟨fun _ _ h => h.interchangeable, ?_, ?_⟩
  · intro dialect c operations
    exact ((lasting_onCourse c).after (onCourse_start dialect c) operations).interchangeable
  · intro dialect c k diagnostics s
    obtain ⟨hplace, hdialect⟩ := (start dialect c).after_advances k
    have hplace : s.place = k := by
      rw [hplace, place, visited_start, List.length_nil, Nat.zero_add]
    have hcourse : OnCourse c s := (lasting_onCourse c).after (onCourse_start dialect c) _
    unfold OnCourse at hcourse
    rw [hplace, show s.dialect = dialect from hdialect] at hcourse
    have hrecords : s.Abreast { s with diagnostics := diagnostics } := ⟨rfl, rfl, rfl, rfl⟩
    exact (hcourse.trans hrecords).interchangeable

/-- What has been recorded in the middle of a source stays in front of what the second binding lacks. -/
theorem rules_framed_records :
    let s := (start .standard (.ofString "let x = 1 + 2; let y;")).after (List.replicate 3 .advance)
    let d : Diagnostic := .badInteger "3"
    let r := (s.report d).program
    s.Abreast (s.report d) ∧ Framed s (s.report d) s.program r ∧
      r.2.diagnostics = #[d, .unexpectedToken .assign .semicolon, .noOperand .semicolon] := by
  intro s d r
  have habreast : s.Abreast (s.report d) := ⟨rfl, rfl, rfl, rfl⟩
  have hdiagnostics : r.2.diagnostics =
      #[d, .unexpectedToken .assign .semicolon, .noOperand .semicolon] := by decide +kernel
  exact ⟨habreast, (rules_framed.1 s (s.report d) habreast).program, hdiagnostics⟩

end Parser

end LetLang
