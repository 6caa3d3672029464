import LetLang.Proofs.Accounting

/-!
# `LetLang.Proofs.Progress` — every run comes to the end, and no further

A rule moves on from one token to the next and never over the end of the source. Where it gives
something, the parser stands at a token; where it gives nothing, the parser stands where its diagnostic
says. The loop moves on once behind each attempt, so it may read the end a second time, but only behind
an attempt that has failed at the end. That attempt is the last one.

## Contents
- `Parser.Paced`: the moves between two states are the tokens between them.
- `Diagnostic.Fits`, `Parser.Halts`: a diagnostic and the place where it has been recorded.
- `Run.lands`, `Attempt.lands`: where a call and an attempt leave the parser.
- `Parser.Exhausts`, `Loop.exhausts`: attempts, moves and diagnostics of the loop.
- `program_progress`: the bounds for whole programs, in every dialect.
-/

namespace LetLang

/-! ## Places -/

/-- The kind of token that a diagnostic says it has met, if it names one. -/
def Diagnostic.met? : Diagnostic → Option Kind
  | unexpectedToken _ got => some got
  | noOperand kind => some kind
  | badInteger _ => none

/-- No diagnostic follows one that has met the end. -/
def Diagnostic.NoneBehindEnd (ds : List Diagnostic) : Prop :=
  ∀ ⦃before d after⦄, ds = before ++ d :: after → d.met? = some .eof → after = []

theorem Diagnostic.noneBehindEnd_nil : NoneBehindEnd [] := by
  intro before d after h
  simp at h

theorem Diagnostic.NoneBehindEnd.cons {d : Diagnostic} {ds : List Diagnostic} (h : NoneBehindEnd ds)
    (hd : d.met? = some .eof → ds = []) : NoneBehindEnd (d :: ds) := by
  intro before d' after heq hmet
  cases before with
  | nil =>
      obtain ⟨rfl, rfl⟩ := List.cons.inj heq
      exact hd hmet
  | cons first before => exact h (List.cons.inj heq).2 hmet

/-- The parser stands where the diagnostic says: at a token that no operand begins with, at an integer
    that cannot be read, or in front of a token of another kind than the one that was expected. -/
def Diagnostic.Fits (d : Diagnostic) (t : Parser) : Prop :=
  match d with
  | noOperand kind => t.current.kind = kind ∧ t.dialect.operand kind = none
  | badInteger text => t.current.text = text ∧ Text.readInt64? text = none ∧
      t.dialect.operand t.current.kind = some .integer
  | unexpectedToken expected got => t.peek.kind = got ∧ got ≠ expected ∧ t.current.kind ≠ .eof

namespace Parser

/-- The diagnostic is the last one that has been recorded, and the parser stands where it says. -/
def Halts (t : Parser) (d : Diagnostic) : Prop := t.diagnostics.back? = some d ∧ d.Fits t

/-- From `s` to `t` the parser has moved over some of the tokens, and each move has been noted. -/
def Paced (s t : Parser) : Prop :=
  ∀ ⦃tokens⦄, s.Reads tokens → ∃ taken rest, tokens = taken ++ rest ∧ t.Reads rest ∧
    t.visited.length = s.visited.length + taken.length

variable {s t u : Parser} {tokens : List Token}

theorem halts_report {d : Diagnostic} (h : d.Fits s) : (s.report d).Halts d := by
  refine ⟨Array.back?_push, ?_⟩
  cases d <;> exact h

theorem Paced.refl (s : Parser) : s.Paced s := by
  intro tokens h
  exact ⟨[], tokens, rfl, h, rfl⟩

theorem Paced.trans (hst : s.Paced t) (htu : t.Paced u) : s.Paced u := by
  intro tokens hs
  obtain ⟨taken, middle, rfl, ht, hvisited⟩ := hst hs
  obtain ⟨more, rest, rfl, hu, hvisited'⟩ := htu ht
  refine ⟨taken ++ more, rest, (List.append_assoc ..).symm, hu, ?_⟩
  rw [hvisited', hvisited, List.length_append]
  omega

/-- The moves are as many as the tokens that are left behind. -/
theorem Paced.length_eq {rest : List Token} (h : s.Paced t) (hs : s.Reads tokens)
    (ht : t.Reads rest) : t.visited.length + rest.length = s.visited.length + tokens.length := by
  obtain ⟨taken, rest', rfl, ht', hvisited⟩ := h hs
  rw [ht.unique ht', hvisited, List.length_append]
  omega

theorem paced_report (s : Parser) (d : Diagnostic) : s.Paced (s.report d) := by
  intro tokens h
  exact ⟨[], tokens, rfl, h.report d, by simp⟩

/-- A move from a token, not from the end, is a move over that token. -/
theorem paced_advance (h : s.current.kind ≠ .eof) : s.Paced s.advance := by
  intro tokens hs
  obtain ⟨rest, rfl⟩ := hs.exists_cons h
  exact ⟨[s.current], rest, rfl, hs.advance, by simp⟩

theorem stands_of_eq {kind : Kind} (h : s.current.kind = kind) (hkind : kind ≠ .eof) :
    s.current.kind ≠ .eof := by
  rwa [h]

theorem paced_takeOperator (h : s.current.kind ≠ .eof) : s.Paced s.takeOperator := by
  intro tokens hs
  obtain ⟨rest, rfl⟩ := hs.exists_cons h
  exact ⟨[s.current], rest, rfl, hs.advance.note _, by simp [takeOperator]⟩

theorem paced_skipSemicolon (h : s.current.kind ≠ .eof) : s.Paced s.skipSemicolon := by
  unfold skipSemicolon
  split
  · exact paced_advance h
  · exact Paced.refl s

/-! ## Where the rules leave the parser -/

/-- The parser has moved on from `s` to `t`, where it stands at a token if there is a result, and else
    where its diagnostic says. -/
def Lands {α : Type} (s : Parser) (result : Option α) (t : Parser) : Prop :=
  s.Paced t ∧ match result with
    | some _ => t.current.kind ≠ .eof
    | none => ∃ d, t.Halts d

theorem Lands.after {α : Type} {result : Option α} (hst : s.Paced t) (h : t.Lands result u) :
    s.Lands result u :=
  ⟨hst.trans h.1, h.2⟩

/-- What the rules rely on when they call each other. -/
def Ready : Call → Parser → Prop
  | .expression _, _ => True
  | .operand rule, s => s.dialect.operand s.current.kind = some rule
  | .climb _ _, s => s.current.kind ≠ .eof
  | .join _, s => s.current.kind ≠ .eof

/-- An operator is a token. -/
theorem ready_join {left : Expr} (h : s.dialect.joins s.peek.kind = true) :
    Ready (.join left) s.takeOperator := by
  show s.peek.kind ≠ .eof
  intro heof
  rw [heof, s.dialect.joins_eof] at h
  exact absurd h (by decide)

/-- **A call moves over tokens only, and ends at a token or where its diagnostic says.** -/
theorem Run.lands {call : Call} {result : Option Expr} (h : Run call s result t) :
    Ready call s → s.Lands result t := by
  induction h with
  | noOperand h =>
      intro _
      exact ⟨paced_report _ _, _, halts_report ⟨rfl, h⟩⟩
  | operandFails h _ ih =>
      intro _
      exact ih h
  | operandThen h _ _ iho ihc =>
      intro _
      obtain ⟨hpaced, hstands⟩ := iho h
      exact (ihc hstands).after hpaced
  | identifier | integer | boolean =>
      intro hrule
      exact ⟨Paced.refl _, current_kind_ne_eof hrule⟩
  | badInteger hvalue =>
      intro hrule
      exact ⟨paced_report _ _, _, halts_report ⟨rfl, hvalue, hrule⟩⟩
  | unaryFails _ ih | unary _ ih | groupFails _ ih =>
      intro hrule
      exact (ih trivial).after (paced_advance (current_kind_ne_eof hrule))
  | @group s t inner _ hclose ih =>
      intro hrule
      obtain ⟨hpaced, hstands⟩ := ih trivial
      have hopened := (paced_advance (current_kind_ne_eof hrule)).trans hpaced
      exact ⟨hopened.trans (paced_advance hstands), stands_of_eq (s := t.advance) hclose (by decide)⟩
  | groupOpen _ hopen ih =>
      intro hrule
      obtain ⟨hpaced, hstands⟩ := ih trivial
      have hopened := (paced_advance (current_kind_ne_eof hrule)).trans hpaced
      exact ⟨hopened.trans (paced_report _ _), .unexpectedToken .closeParen _,
        halts_report ⟨rfl, hopen, hstands⟩⟩
  | stop =>
      intro hstands
      exact ⟨Paced.refl _, hstands⟩
  | climbFails h _ ih =>
      intro hstands
      exact (ih (ready_join h.2)).after (paced_takeOperator hstands)
  | climb h _ _ ihj ihc =>
      intro hstands
      obtain ⟨hpaced, hstands'⟩ := ihj (ready_join h.2)
      exact (ihc hstands').after ((paced_takeOperator hstands).trans hpaced)
  | joinFails _ ih | join _ ih =>
      intro hstands
      exact (ih trivial).after (paced_advance hstands)

/-- A semicolon is a token as well. -/
theorem stands_skipSemicolon (h : s.current.kind ≠ .eof) : s.skipSemicolon.current.kind ≠ .eof := by
  unfold skipSemicolon
  split
  · next hsemicolon => exact stands_of_eq (s := s.advance) hsemicolon (by decide)
  · exact h

theorem Lands.skipSemicolon {value : Expr} (stmt : Stmt) (h : s.Lands (some value) t) :
    s.Lands (some stmt) t.skipSemicolon :=
  ⟨h.1.trans (paced_skipSemicolon h.2), stands_skipSemicolon h.2⟩

/-- **So does an attempt that begins at a token.** -/
theorem Attempt.lands {rule : StatementRule} {result : Option Stmt} (h : Attempt rule s result t)
    (hne : s.current.kind ≠ .eof) : s.Lands result t := by
  have hfirst := paced_advance hne
  -- A name and a sign are tokens, so the moves up to the value of a binding are moves over tokens.
  have hwords (hname : s.peek.kind = .ident) (hsign : s.advance.peek.kind = .assign) :
      s.Paced s.advance.advance.advance :=
    (hfirst.trans (paced_advance (stands_of_eq (s := s.advance) hname (by decide)))).trans
      (paced_advance (stands_of_eq (s := s.advance.advance) hsign (by decide)))
  cases h with
  | bindNoName hname => exact ⟨paced_report _ _, _, halts_report ⟨rfl, hname, hne⟩⟩
  | bindNoSign hname hsign =>
      exact ⟨hfirst.trans (paced_report _ _), _,
        halts_report ⟨rfl, hsign, stands_of_eq (s := s.advance) hname (by decide)⟩⟩
  | bindFails hname hsign h => exact (h.lands trivial).after (hwords hname hsign)
  | bind hname hsign h => exact ((h.lands trivial).after (hwords hname hsign)).skipSemicolon _
  | retFails h => exact (h.lands trivial).after hfirst
  | ret h => exact ((h.lands trivial).after hfirst).skipSemicolon _
  | exprFails h => exact h.lands trivial
  | expr h => exact (h.lands trivial).skipSemicolon _

/-! ## The loop -/

variable {stmts : List Stmt}

/-- At the end of the source the loop does nothing. -/
theorem Loop.eq_of_eof (h : Loop s stmts t) (heof : s.current.kind = .eof) : stmts = [] ∧ t = s := by
  cases h with
  | done => exact ⟨rfl, rfl⟩
  | step hne => exact absurd heof hne

/-- A parser that halts at the end has missed an expression there. -/
theorem Halts.eq_noOperand {d : Diagnostic} (h : t.Halts d) (hend : t.current.kind = .eof) :
    d = .noOperand .eof := by
  obtain ⟨_, hfits⟩ := h
  cases d with
  | noOperand kind => rw [← hend, hfits.1]
  | badInteger text => exact absurd hend (current_kind_ne_eof hfits.2.2)
  | unexpectedToken expected got => exact absurd hend hfits.2.2

/-- A parser that halts at a token and has met the end has met it behind that token. -/
theorem Halts.peek_of_met {d : Diagnostic} (h : t.Halts d) (hne : t.current.kind ≠ .eof)
    (hmet : d.met? = some .eof) : t.peek.kind = .eof := by
  obtain ⟨_, hfits⟩ := h
  cases d with
  | noOperand kind => exact absurd (hfits.1.trans (Option.some.inj hmet)) hne
  | badInteger text => exact nomatch hmet
  | unexpectedToken expected got => exact hfits.1.trans (Option.some.inj hmet)

/-- If one diagnostic has been recorded, the parser halts at that one. -/
theorem Halts.diagnostics_eq {d : Diagnostic} {ds : Array Diagnostic} (h : t.Halts d)
    (hone : ∃ d', t.diagnostics = ds.push d') : t.diagnostics = ds.push d := by
  obtain ⟨hback, _⟩ := h
  obtain ⟨d', hd'⟩ := hone
  rw [hd', Array.back?_push] at hback
  rw [hd', Option.some.inj hback]

/-- What the loop does from `s` to `t`, when `tokens` are in front of it and it records `ds`. -/
structure Exhausts (s : Parser) (tokens : List Token) (ds : List Diagnostic) (t : Parser) : Prop where
  reads : t.Reads []
  diagnostics : t.diagnostics.toList = s.diagnostics.toList ++ ds
  attempted : t.attempted.length ≤ s.attempted.length + tokens.length
  visited : t.visited.length =
    s.visited.length + tokens.length + if .noOperand .eof ∈ ds then 1 else 0
  last : Diagnostic.NoneBehindEnd ds

/-- One attempt that ends at a token, and all that come behind it. -/
theorem Exhausts.after {taken rest : List Token} {last : Token} {ds : List Diagnostic}
    (new : Option Diagnostic) (h : t.Exhausts rest ds u)
    (hdiagnostics : t.diagnostics.toList = s.diagnostics.toList ++ new.toList)
    (hattempted : t.attempted.length = s.attempted.length + 1)
    (hvisited : t.visited.length = s.visited.length + taken.length + 1)
    (hnew : ∀ d ∈ new, d ≠ .noOperand .eof ∧ (d.met? = some .eof → ds = [])) :
    s.Exhausts (taken ++ last :: rest) (new.toList ++ ds) u where
  reads := h.reads
  diagnostics := by rw [h.diagnostics, hdiagnostics, List.append_assoc]
  attempted := by
    have hle := h.attempted
    simp only [List.length_append, List.length_cons]
    omega
  visited := by
    have hmem : .noOperand .eof ∈ new.toList ++ ds ↔ .noOperand .eof ∈ ds := by
      rw [List.mem_append, Option.mem_toList]
      exact or_iff_right fun hmem => (hnew _ hmem).1 rfl
    simp only [hmem, h.visited, hvisited, List.length_append, List.length_cons]
    omega
  last := by
    cases new with
    | none => exact h.last
    | some d => exact h.last.cons (hnew d rfl).2

/-- **The loop comes to the end of the tokens.** It makes at most one attempt a token, moves once a token
    and once more if an expression was missing at the very end, and no diagnostic follows one that has
    met the end. -/
theorem Loop.exhausts (h : Loop s stmts u) {tokens : List Token} (hs : s.Reads tokens) :
    ∃ ds, s.Exhausts tokens ds u := by
  induction h generalizing tokens with
  | done heof =>
      obtain rfl := hs.current_kind_eq_eof_iff.mp heof
      exact ⟨[], hs, by simp, by simp, by simp, Diagnostic.noneBehindEnd_nil⟩
  | @step s t u result stmts hne hattempt hloop ih =>
      obtain ⟨hpaced, hend⟩ := hattempt.lands hne
      obtain ⟨taken, rest, rfl, ht, hvisited⟩ := hpaced (hs.note _)
      have hattempted : t.advance.attempted.length = s.attempted.length + 1 := by
        rw [attempted_advance, hattempt.attempted_eq, List.length_append]
        rfl
      have hmoved : t.advance.visited.length = s.visited.length + taken.length + 1 := by
        simpa using hvisited
      have haccounts := hattempt.accounts
      cases result with
      | some stmt =>
          obtain ⟨rest, rfl⟩ := ht.exists_cons hend
          obtain ⟨ds, h⟩ := ih ht.advance
          have hsame : t.advance.diagnostics = s.diagnostics := haccounts
          exact ⟨ds, h.after none (by simp [hsame]) hattempted hmoved (by simp)⟩
      | none =>
          obtain ⟨d, hhalts⟩ := hend
          have hpush : t.advance.diagnostics = s.diagnostics.push d :=
            hhalts.diagnostics_eq haccounts
          cases rest with
          | nil =>
              -- Nothing is left, so this was the last attempt, and one move more has been made.
              obtain rfl := hhalts.eq_noOperand (ht.current_kind_eq_eof_iff.mpr rfl)
              obtain ⟨rfl, rfl⟩ := hloop.eq_of_eof (ht.advance.current_kind_eq_eof_iff.mpr rfl)
              have hpos := List.length_pos_iff.mpr (mt hs.current_kind_eq_eof_iff.mpr hne)
              exact ⟨[.noOperand .eof], ht.advance, by simp [hpush], by omega, by simpa using hmoved,
                Diagnostic.noneBehindEnd_nil.cons fun _ => rfl⟩
          | cons last rest =>
              have hstands := mt ht.current_kind_eq_eof_iff.mp (List.cons_ne_nil last rest)
              obtain ⟨ds, h⟩ := ih ht.advance
              refine ⟨d :: ds, h.after (some d) (by simp [hpush]) hattempted hmoved ?_⟩
              rintro _ ⟨⟩
              constructor
              · rintro rfl
                exact hstands hhalts.2.1
              · intro hmet
                obtain ⟨_, rfl⟩ := hloop.eq_of_eof (hhalts.peek_of_met hstands hmet)
                have hnone := h.diagnostics
                simpa using hnone

/-! ## Whole programs -/

/-- **Every program is read to its end, and no further.** In whatever dialect, the program loop goes
    through finitely many calls; it attempts at most one statement a token, and moves on once a token, and
    once more exactly if an expression is missing at the very end. A diagnostic that has met the end is
    the last one. Afterwards the parser stays at the end: however often it moves on, it is still there,
    and to read a program there gives the empty program and no diagnostic. -/
theorem program_progress (dialect : Dialect) (source : String) :
    let s := start dialect (.ofString source)
    let n := (Cursor.ofString source).tokens.length
    let t := s.program.2
    Loop s s.program.1.statements s.statements.2 ∧
    t.attempted.length ≤ n ∧
    (t.visited.length = n ∨ t.visited.length = n + 1) ∧
    (t.visited.length = n + 1 ↔ .noOperand .eof ∈ t.diagnostics) ∧
    Diagnostic.NoneBehindEnd t.diagnostics.toList ∧
    (∀ k, t.tokenAt k = .eof) ∧
    t.program.1.statements = [] ∧ t.program.2.diagnostics = t.diagnostics := by
  intro s n t
  have hs : s.Reads _ := reads_start dialect (.ofString source)
  obtain ⟨ds, h⟩ := s.loop_statements.exhausts hs
  have hdiagnostics : t.diagnostics.toList = ds := h.diagnostics
  have hvisited : t.visited.length = n + if .noOperand .eof ∈ ds then 1 else 0 := by
    simpa [s, t, n, program] using h.visited
  have hreads : t.Reads [] := h.reads.note _
  have hagain := t.loop_statements.eq_of_eof (hreads.current_kind_eq_eof_iff.mpr rfl)
  refine ⟨s.loop_statements, ?_, ?_, ?_, ?_, ?_, ?_, ?_⟩
  · simpa [s, t, n, program] using h.attempted
  · rw [hvisited]
    split <;> simp
  · rw [hvisited, ← Array.mem_toList_iff, hdiagnostics]
    split <;> simp_all
  · rw [hdiagnostics]
    exact h.last
  · intro k
    rw [hreads.tokenAt_eq, List.getD_nil]
  · exact hagain.1
  · show t.statements.2.diagnostics = t.diagnostics
    rw [hagain.2]

end Parser

end LetLang
