import LetLang.Proofs.Statements

/-!
# `LetLang.Proofs.Acceptance` — the sources that are accepted

The grammar of programs is ambiguous: a statement may begin with a minus sign, and the statement in front
of it could as well go on with it. The parser always goes on. It loses nothing by that, for the two
statements are one as well (`IsStatement.merge`).

## Contents
- `IsProgram.derives`, `DerivesProgram.isProgram`: every program can be cut into statements that could
  not have been longer.
- `parse_accepts_iff`: a source has no diagnostics exactly if its tokens are a program.
-/

namespace LetLang

variable {tokens left right taken rest : List Token} {stmt : Stmt} {stmts : List Stmt}

/-- Of all operators between operands only the minus sign begins an expression. -/
theorem eq_dash_of_openers {kind : Kind} {power : Power} (h : kind ∈ Kind.openers)
    (hpower : Dialect.standard.power kind = some power) : kind = .dash := by
  cases kind with
  | dash => rfl
  | ident | int | trueWord | falseWord | openParen | not => exact nomatch hpower
  | _ => simp [Kind.openers] at h

/-- **A statement that goes on with the next one**, read as an operator and its operand, is one
    statement together with it. -/
theorem IsStatement.append_of_goesOn (hleft : IsStatement left) (h : DerivesStmt taken stmt)
    (hgo : GoesOn .lowest (taken ++ rest)) : IsStatement (left ++ taken) := by
  obtain ⟨op, more, power, hcons, hpower, _⟩ := hgo
  cases h with
  | bind hword | ret hword =>
      obtain ⟨rfl, rfl⟩ := List.cons.inj hcons
      rw [hword] at hpower
      exact nomatch hpower
  | expr h =>
      obtain ⟨rfl, rfl⟩ := List.cons.inj hcons
      obtain ⟨_, _, hfirst, hopener⟩ := h.exists_cons
      obtain ⟨rfl, rfl⟩ := List.cons.inj hfirst
      exact hleft.merge (eq_dash_of_openers hopener hpower) h.isPhrase

/-- No statement begins with a semicolon. -/
theorem DerivesStmt.head_ne_semicolon (h : DerivesStmt taken stmt) :
    ∀ token ∈ (taken ++ rest).head?, token.kind ≠ .semicolon := by
  intro token htoken hsemi
  obtain ⟨first, more, rfl, hopener⟩ := h.exists_cons
  obtain rfl := Option.some.inj htoken
  simp [hsemi, Kind.stmtOpeners, Kind.openers] at hopener

theorem DerivesProgram.cons_bare (hstmt : DerivesStmt taken stmt) (hends : Ends [] rest)
    (h : DerivesProgram rest stmts) : DerivesProgram (taken ++ rest) (stmt :: stmts) :=
  @DerivesProgram.cons taken [] rest stmt stmts hstmt hends h

/-- A statement in front of a program, with no semicolon between them. -/
theorem DerivesProgram.cons_statement (h : DerivesProgram right stmts) (hleft : IsStatement left) :
    ∃ stmts, DerivesProgram (left ++ right) stmts := by
  cases h with
  | nil =>
      obtain ⟨stmt, hstmt⟩ := hleft.derives
      have hends : Ends [] [] := .nothing (fun _ h => nomatch h) not_goesOn_nil
      exact ⟨[stmt], .cons_bare hstmt hends .nil⟩
  | @cons taken ending rest stmt stmts hstmt hends h =>
      by_cases hgo : GoesOn .lowest (taken ++ (ending ++ rest))
      · obtain ⟨stmt', hstmt'⟩ := (hleft.append_of_goesOn hstmt hgo).derives
        exact ⟨stmt' :: stmts, by simpa using DerivesProgram.cons hstmt' hends h⟩
      · obtain ⟨stmt', hstmt'⟩ := hleft.derives
        have hends' : Ends [] (taken ++ (ending ++ rest)) := .nothing hstmt.head_ne_semicolon hgo
        exact ⟨stmt' :: stmt :: stmts, .cons_bare hstmt' hends' (.cons hstmt hends h)⟩

/-- **Every program is a list of statements that could not have been longer.** -/
theorem IsProgram.derives (h : IsProgram tokens) : ∃ stmts, DerivesProgram tokens stmts := by
  induction h with
  | nil => exact ⟨[], .nil⟩
  | bare hleft _ ih =>
      obtain ⟨stmts, hstmts⟩ := ih
      exact hstmts.cons_statement hleft
  | ended hleft hsemi _ ih =>
      obtain ⟨stmts, hstmts⟩ := ih
      obtain ⟨stmt, hstmt⟩ := hleft.derives
      exact ⟨stmt :: stmts, .cons hstmt (.semicolon hsemi) hstmts⟩

theorem DerivesProgram.isProgram (h : DerivesProgram tokens stmts) : IsProgram tokens := by
  induction h with
  | nil => exact .nil
  | cons hstmt hends _ ih =>
      cases hends with
      | semicolon hsemi => exact .ended hstmt.isStatement hsemi ih
      | nothing => exact .bare hstmt.isStatement ih

/-! ## Whole sources -/

/-- A source whose tokens are derived is read as the grammar says. -/
theorem parse_of_derives {source : String}
    (h : DerivesProgram (Cursor.ofString source).tokens stmts) :
    (parse source).1 = ⟨stmts⟩ ∧ (parse source).2.diagnostics = #[] := by
  obtain ⟨t, heq, ht⟩ := Parser.statements_eq h rfl (Parser.reads_start .standard _)
  unfold parse Parser.program
  rw [heq]
  exact ⟨rfl, ht⟩

/-- **A source is accepted exactly if its tokens are a program**: statements, each with at most one
    semicolon behind it, whichever way the tokens can be cut into them. -/
theorem parse_accepts_iff (source : String) :
    (parse source).2.diagnostics = #[] ↔ IsProgram (Cursor.ofString source).tokens := by
  constructor
  · intro hsilent
    have hloop := (Parser.start .standard (.ofString source)).loop_statements
    exact (hloop.derives rfl (Parser.reads_start .standard _) hsilent).isProgram
  · intro h
    obtain ⟨stmts, hstmts⟩ := h.derives
    exact (parse_of_derives hstmts).2

end LetLang
