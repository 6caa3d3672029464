import LetLang.Proofs.Attempts
import LetLang.Proofs.Climbing

/-!
# `LetLang.Proofs.Statements` — statements are read as the grammar derives them

The loop over statements is greedy. It reads a statement as far as operators go on, takes a semicolon if
there is one, and begins the next statement behind it. The programs that it reads in this way are those
of `DerivesProgram`, in which no statement could have been longer.

## Contents
- `Ends`: how a statement ends, with `Ends.append`, `Before.skipSemicolon` and
  `Before.skipSemicolon_of_ends`.
- `Attempt.sound`, `statement_eq`: one attempt and one derivation.
- `DerivesProgram`, `Loop.derives`, `statements_eq`: all attempts and all derivations, with
  `statements_append` for a program in front of other tokens.
- `Loop.derives_of_mem`: what is left of a source with mistakes is still derived.
-/

namespace LetLang

/-! ## The end of a statement -/

/-- `Ends ending rest`: in front of `rest` a statement ends with the tokens `ending`. They are a
    semicolon, or none if neither a semicolon nor an operator follows. -/
inductive Ends : List Token → List Token → Prop where
  | semicolon {semi : Token} {rest : List Token} (h : semi.kind = .semicolon) : Ends [semi] rest
  | nothing {rest : List Token} (hsemi : ∀ token ∈ rest.head?, token.kind ≠ .semicolon)
      (hstop : ¬GoesOn .lowest rest) : Ends [] rest

theorem Ends.not_goesOn {ending rest : List Token} (h : Ends ending rest) :
    ¬GoesOn .lowest (ending ++ rest) := by
  cases h with
  | semicolon h => exact not_goesOn_cons (by rw [h]; rfl)
  | nothing _ hstop => exact hstop

/-- **A statement ends in front of more tokens as it does without them**, if they do not carry it on where
    nothing else follows it. -/
theorem Ends.append {ending tail rest : List Token} (h : Ends ending tail)
    (hrest : ending ++ tail = [] → Ends [] rest) : Ends ending (tail ++ rest) := by
  cases h with
  | semicolon hsemi => exact .semicolon hsemi
  | nothing hsemi hstop =>
      cases tail with
      | nil => exact hrest rfl
      | cons token more =>
          -- What comes next is what came next before.
          refine .nothing hsemi ?_
          rintro ⟨op, _, power, heq, hpower⟩
          obtain ⟨rfl, rfl⟩ := List.cons.inj heq
          exact hstop ⟨_, _, power, rfl, hpower⟩

theorem IsStatement.isProgram {tokens : List Token} (h : IsStatement tokens) : IsProgram tokens := by
  simpa using IsProgram.bare h .nil

/-- A statement with its end, in front of a program. -/
theorem IsProgram.cons {taken ending rest tokens : List Token} (hstmt : IsStatement taken)
    (hends : Ends ending rest) (h : IsProgram tokens) : IsProgram (taken ++ ending ++ tokens) := by
  cases hends with
  | semicolon hsemi => simpa using IsProgram.ended hstmt hsemi h
  | nothing => simpa using IsProgram.bare hstmt h

namespace Parser

variable {s t : Parser} {tokens taken ending rest : List Token} {stmt : Stmt} {value : Expr}

/-- A parser that has read a value goes on to the end of the statement. -/
theorem Before.skipSemicolon (h : s.Before rest) (hstop : ¬GoesOn .lowest rest) :
    ∃ ending more, rest = ending ++ more ∧ Ends ending more ∧ s.skipSemicolon.Before more := by
  by_cases hsemi : s.peek.kind = .semicolon
  · obtain ⟨more, rfl⟩ := h.exists_cons (by simp [hsemi])
    refine ⟨[s.peek], more, rfl, .semicolon hsemi, ?_⟩
    rw [Parser.skipSemicolon, if_pos hsemi]
    exact h.advance.before
  · refine ⟨[], rest, rfl, .nothing ?_ hstop, ?_⟩
    · intro token htoken
      rwa [h.peek_eq, List.headD_eq_head?_getD, htoken] at hsemi
    · rwa [Parser.skipSemicolon, if_neg hsemi]

theorem Before.skipSemicolon_of_ends (h : s.Before (ending ++ rest)) (hends : Ends ending rest) :
    s.skipSemicolon.Before rest := by
  cases hends with
  | semicolon hsemi =>
      rw [Parser.skipSemicolon, if_pos (by rw [h.peek_eq]; exact hsemi)]
      exact h.advance.before
  | nothing hsemi _ =>
      rw [Parser.skipSemicolon, if_neg]
      · exact h
      · rw [h.peek_eq, List.nil_append]
        cases rest with
        | nil => decide
        | cons token more => exact hsemi token rfl

/-! ## One statement -/

/-- The standard dialect has two words for statements, and all others are expressions. -/
theorem kind_of_rule (hdialect : s.dialect = .standard) :
    (s.rule = .bind → s.current.kind = .letWord) ∧
      (s.rule = .ret → s.current.kind = .returnWord) := by
  rw [rule, hdialect]
  generalize s.current.kind = kind
  cases kind <;> decide

theorem rule_of_openers (hdialect : s.dialect = .standard) (h : s.current.kind ∈ Kind.openers) :
    s.rule = .expr := by
  rw [rule, hdialect]
  revert h
  generalize s.current.kind = kind
  cases kind <;> decide

/-- The value of a statement is an expression, and the statement ends behind it. -/
theorem Run.sound_value (h : Run (.expression .lowest) s (some value) t)
    (hdialect : s.dialect = .standard) (hs : s.Reads tokens) :
    ∃ taken ending rest, tokens = taken ++ (ending ++ rest) ∧ Derives .equality taken value ∧
      Ends ending rest ∧ t.skipSemicolon.Before rest := by
  obtain ⟨taken, rest, rfl, ht, hstop, hderives⟩ := h.sound hdialect value rfl tokens hs
  obtain ⟨ending, rest, rfl, hends, hbefore⟩ := ht.skipSemicolon hstop
  exact ⟨taken, ending, rest, rfl, hderives, hends, hbefore⟩

/-- **An attempt that gives a statement has read a derivation of it**, with its end. -/
theorem Attempt.sound (h : Attempt s.rule s (some stmt) t) (hdialect : s.dialect = .standard)
    (hs : s.Reads tokens) (hne : s.current.kind ≠ .eof) :
    ∃ taken ending rest, tokens = taken ++ (ending ++ rest) ∧ DerivesStmt taken stmt ∧
      Ends ending rest ∧ t.Before rest := by
  obtain ⟨hletWord, hreturnWord⟩ := kind_of_rule hdialect
  obtain ⟨rest, rfl⟩ := hs.exists_cons hne
  generalize hrule : s.rule = rule at h
  cases h with
  | @bind _ t value hname hsign h =>
      -- The word, the name and the sign are passed one by one.
      have hs1 := hs.before
      obtain ⟨rest, rfl⟩ := hs1.exists_cons (by simp [hname])
      have hs2 := hs1.advance.before
      obtain ⟨rest, rfl⟩ := hs2.exists_cons (by simp [hsign])
      obtain ⟨taken, ending, rest, rfl, hderives, hends, ht⟩ :=
        h.sound_value hdialect hs2.advance.advance
      exact ⟨s.current :: s.peek :: s.advance.peek :: taken, ending, rest, rfl,
        .bind (hletWord hrule) hname hsign hderives, hends, ht⟩
  | @ret _ t value h =>
      obtain ⟨taken, ending, rest, rfl, hderives, hends, ht⟩ := h.sound_value hdialect hs.advance
      exact ⟨s.current :: taken, ending, rest, rfl, .ret (hreturnWord hrule) hderives, hends, ht⟩
  | @expr _ t value h =>
      obtain ⟨taken, ending, rest, heq, hderives, hends, ht⟩ := h.sound_value hdialect hs
      obtain ⟨first, more, rfl, _⟩ := hderives.exists_cons
      obtain ⟨rfl, rfl⟩ := List.cons.inj heq
      exact ⟨s.current :: more, ending, rest, rfl, .expr hderives, hends, ht⟩

/-- The note that an attempt begins with changes nothing of what it reads. -/
theorem Attempt.sound_note {event : Event} (h : Attempt s.rule (s.note event) (some stmt) t)
    (hdialect : s.dialect = .standard) (hs : s.Reads tokens) (hne : s.current.kind ≠ .eof) :
    ∃ taken ending rest, tokens = taken ++ (ending ++ rest) ∧ DerivesStmt taken stmt ∧
      Ends ending rest ∧ t.Before rest := by
  have hsound : Attempt (s.note event).rule (s.note event) (some stmt) t := h
  exact hsound.sound hdialect (hs.note event) hne

/-- Where an expression and the end of a statement lie ahead, they are read. -/
theorem value_eq (h : Derives .equality taken value) (hends : Ends ending rest)
    (hdialect : s.dialect = .standard) (hs : s.Reads (taken ++ (ending ++ rest))) :
    ∃ t, s.value = (some value, t) ∧ s.Arrives t rest := by
  have hstop : ¬GoesOn .lowest (ending ++ rest) := hends.not_goesOn
  obtain ⟨t, ht, heq⟩ := (isRead_of_derives h).expression_eq .lowest hdialect hs (Nat.le_refl _)
    (not_goesOn_above hstop) hstop
  refine ⟨t.skipSemicolon, by simp only [Parser.value, heq], ?_, ?_,
    ht.before.skipSemicolon_of_ends hends⟩
  · exact (dialect_skipSemicolon t).trans ht.dialect
  · exact (diagnostics_skipSemicolon t).trans ht.diagnostics

theorem bindStatement_eq {word name sign : Token} (hname : name.kind = .ident)
    (hsign : sign.kind = .assign) (h : Derives .equality taken value) (hends : Ends ending rest)
    (hdialect : s.dialect = .standard)
    (hs : s.Reads (word :: name :: sign :: (taken ++ (ending ++ rest)))) :
    ∃ t, s.bindStatement = (some (.bind word ⟨name, name.text⟩ value), t) ∧ s.Arrives t rest := by
  obtain rfl := hs.current_eq
  obtain rfl : s.peek = name := hs.peek
  obtain rfl : s.advance.peek = sign := hs.advance.peek
  obtain ⟨t, heq, ht⟩ :=
    value_eq (s := s.advance.advance.advance) h hends hdialect hs.advance.advance.advance
  refine ⟨t, ?_, ht.of_advance.of_advance.of_advance⟩
  unfold bindStatement
  rw [expect_of_eq hname]
  dsimp only
  rw [expect_of_eq hsign]
  simp only [heq]

theorem retStatement_eq {word : Token} (h : Derives .equality taken value)
    (hends : Ends ending rest) (hdialect : s.dialect = .standard)
    (hs : s.Reads (word :: (taken ++ (ending ++ rest)))) :
    ∃ t, s.retStatement = (some (.ret word value), t) ∧ s.Arrives t rest := by
  obtain rfl := hs.current_eq
  obtain ⟨t, heq, ht⟩ := value_eq (s := s.advance) h hends hdialect hs.advance
  refine ⟨t, ?_, ht.of_advance⟩
  simp only [retStatement, heq]

theorem exprStatement_eq {first : Token} (h : Derives .equality (first :: taken) value)
    (hends : Ends ending rest) (hdialect : s.dialect = .standard)
    (hs : s.Reads (first :: taken ++ (ending ++ rest))) :
    ∃ t, s.exprStatement = (some (.expr first value), t) ∧ s.Arrives t rest := by
  obtain rfl := hs.current_eq
  obtain ⟨t, heq, ht⟩ := value_eq h hends hdialect hs
  refine ⟨t, ?_, ht⟩
  simp only [exprStatement, heq]

theorem statementBy_eq (h : DerivesStmt taken stmt) (hends : Ends ending rest)
    (hdialect : s.dialect = .standard) (hs : s.Reads (taken ++ (ending ++ rest))) :
    ∃ t, s.statementBy s.rule = (some stmt, t) ∧ s.Arrives t rest := by
  cases h with
  | @bind word _ _ _ _ hword hname hsign h =>
      have hkind : s.current.kind = .letWord := by rw [hs.current_eq]; exact hword
      have hrule : s.rule = .bind := by rw [rule, hdialect, hkind]; rfl
      rw [hrule]
      exact bindStatement_eq hname hsign h hends hdialect hs
  | @ret word _ _ hword h =>
      have hkind : s.current.kind = .returnWord := by rw [hs.current_eq]; exact hword
      have hrule : s.rule = .ret := by rw [rule, hdialect, hkind]; rfl
      rw [hrule]
      exact retStatement_eq h hends hdialect hs
  | @expr first _ _ h =>
      obtain ⟨_, _, hcons, hopener⟩ := h.exists_cons
      obtain ⟨rfl, rfl⟩ := List.cons.inj hcons
      rw [rule_of_openers hdialect (by rw [hs.current_eq]; exact hopener)]
      exact exprStatement_eq h hends hdialect hs

/-- **Where a derivation of a statement lies ahead, with its end, an attempt reads it.** -/
theorem statement_eq (h : DerivesStmt taken stmt) (hends : Ends ending rest)
    (hdialect : s.dialect = .standard) (hs : s.Reads (taken ++ (ending ++ rest))) :
    ∃ t, s.statement = (some stmt, t) ∧ s.Arrives t rest := by
  -- The note that an attempt begins with changes nothing of what the rules look at.
  obtain ⟨t, heq, ht⟩ :=
    statementBy_eq (s := s.note (.statement s.current.kind)) h hends hdialect (hs.note _)
  exact ⟨t, heq, ht.dialect, ht.diagnostics, ht.before⟩

end Parser

/-! ## All statements -/

/-- `DerivesProgram tokens stmts`: the tokens are statements with their ends, and `stmts` are their
    trees. -/
inductive DerivesProgram : List Token → List Stmt → Prop where
  | nil : DerivesProgram [] []
  | cons {taken ending rest : List Token} {stmt : Stmt} {stmts : List Stmt}
      (hstmt : DerivesStmt taken stmt) (hends : Ends ending rest) (h : DerivesProgram rest stmts) :
      DerivesProgram (taken ++ (ending ++ rest)) (stmt :: stmts)

/-- The kinds that a statement can begin with. -/
def Kind.stmtOpeners : List Kind := letWord :: returnWord :: openers

theorem DerivesStmt.exists_cons {tokens : List Token} {stmt : Stmt} (h : DerivesStmt tokens stmt) :
    ∃ first rest, tokens = first :: rest ∧ first.kind ∈ Kind.stmtOpeners := by
  cases h with
  | bind hword | ret hword => exact ⟨_, _, rfl, by simp [hword, Kind.stmtOpeners]⟩
  | expr h =>
      obtain ⟨first, rest, hcons, hopener⟩ := h.exists_cons
      exact ⟨first, rest, hcons, by simp [hopener, Kind.stmtOpeners]⟩

namespace Parser

variable {s t : Parser} {tokens : List Token} {stmts : List Stmt}

/-- **A program in front of some tokens is read as it is alone**, if they do not carry on a statement at
    the end of it. Nothing is recorded, and the parser goes on with those tokens. -/
theorem statements_append {rest : List Token} (h : DerivesProgram tokens stmts)
    (hlast : ∀ taken stmt, DerivesStmt taken stmt → taken <:+ tokens → Ends [] rest)
    (hdialect : s.dialect = .standard) (hs : s.Reads (tokens ++ rest)) :
    ∃ t : Parser, t.dialect = .standard ∧ t.Reads rest ∧ t.diagnostics = s.diagnostics ∧
      s.statements = (stmts ++ t.statements.1, t.statements.2) := by
  induction h generalizing s with
  | nil => exact ⟨s, hdialect, hs, rfl, rfl⟩
  | @cons taken ending tail stmt stmts hstmt hends _ ih =>
      have hends' : Ends ending (tail ++ rest) :=
        hends.append fun hnil => hlast taken stmt hstmt (by simp [hnil])
      have hlast' (taken' : List Token) (stmt' : Stmt) (h : DerivesStmt taken' stmt')
          (hsuffix : taken' <:+ tail) : Ends [] rest :=
        hlast taken' stmt' h
          (hsuffix.trans ((List.suffix_append ending tail).trans (List.suffix_append taken _)))
      -- The attempt stops at the last token of the statement, and the loop moves on by one.
      rw [List.append_assoc, List.append_assoc] at hs
      obtain ⟨t, heq, ht⟩ := statement_eq hstmt hends' hdialect hs
      obtain ⟨first, more, rfl, _⟩ := hstmt.exists_cons
      have hne : s.current.kind ≠ .eof := by
        rw [Ne, hs.current_kind_eq_eof_iff]
        exact List.cons_ne_nil _ _
      obtain ⟨u, hu, hreads, hdiagnostics, hrest⟩ :=
        ih (s := t.advance) hlast' (ht.dialect.trans hdialect) ht.before.advance
      refine ⟨u, hu, hreads, hdiagnostics.trans ht.diagnostics, ?_⟩
      rw [statements, if_neg hne]
      simp only [heq, hrest]
      rfl

/-- **Programs that the grammar derives are read, and nothing is recorded.** -/
theorem statements_eq (h : DerivesProgram tokens stmts) (hdialect : s.dialect = .standard)
    (hs : s.Reads tokens) : ∃ t, s.statements = (stmts, t) ∧ t.diagnostics = s.diagnostics := by
  have hends : Ends [] [] := .nothing nofun not_goesOn_nil
  rw [← List.append_nil tokens] at hs
  obtain ⟨t, _, ht, hdiagnostics, heq⟩ := statements_append h (fun _ _ _ _ => hends) hdialect hs
  have hdone : t.statements = ([], t) := by
    rw [statements, if_pos (ht.current_kind_eq_eof_iff.mpr rfl)]
  exact ⟨t, by rw [heq, hdone, List.append_nil], hdiagnostics⟩

/-- **If the loop records nothing, it has read a derivation of the whole source.** -/
theorem Loop.derives (h : Loop s stmts t) (hdialect : s.dialect = .standard)
    (hs : s.Reads tokens) (hsilent : t.diagnostics = s.diagnostics) :
    DerivesProgram tokens stmts := by
  induction h generalizing tokens with
  | done heof =>
      obtain rfl := hs.current_kind_eq_eof_iff.mp heof
      exact .nil
  | @step s t u result stmts hne hattempt hloop ih =>
      have haccounts := hattempt.accounts
      cases result with
      | none => exact absurd hsilent (hloop.diagnostics_ne haccounts)
      | some stmt =>
          obtain ⟨taken, ending, rest, rfl, hstmt, hends, ht⟩ := hattempt.sound_note hdialect hs hne
          have hsilent' : u.diagnostics = t.advance.diagnostics := hsilent.trans haccounts.symm
          exact .cons hstmt hends (ih (hattempt.dialect_eq.trans hdialect) ht.advance hsilent')

/-- **Whatever the mistakes of a source, the statements that are given are derived** from tokens that a
    source can hold. -/
theorem Loop.derives_of_mem (h : Loop s stmts t) (hdialect : s.dialect = .standard)
    (hs : s.Reads tokens) :
    ∀ stmt ∈ stmts, ∃ taken, DerivesStmt taken stmt ∧ ∀ token ∈ taken, token.Spelled := by
  induction h generalizing tokens with
  | done => intro stmt hmem; exact absurd hmem List.not_mem_nil
  | @step s t u result stmts hne hattempt hloop ih =>
      intro stmt hmem
      rcases List.mem_append.mp hmem with hmem | hmem
      · obtain rfl := Option.mem_toList.mp hmem
        obtain ⟨taken, ending, rest, rfl, hstmt, _, _⟩ := hattempt.sound_note hdialect hs hne
        exact ⟨taken, hstmt, fun token htoken => hs.spelled token (List.mem_append_left _ htoken)⟩
      · obtain ⟨rest, _, ht⟩ := hattempt.onward (hs.note _)
        exact ih (hattempt.dialect_eq.trans hdialect) ht.advance stmt hmem

end Parser

end LetLang
