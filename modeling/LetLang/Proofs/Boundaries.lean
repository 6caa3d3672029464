import LetLang.Proofs.Agreement
import LetLang.Proofs.Gluing
import LetLang.Proofs.Offences

/-!
# `LetLang.Proofs.Boundaries` — one source below another

Two sources, one below the other, are read as each of them is alone, if the first has no mistakes and the
second does not carry its last statement on. An operator would, and a semicolon would be taken for the end
of that statement; behind a semicolon nothing is carried on.

The line feed between the two is part of no token, so the tokens are those of the one and those of the
other. When the statements of the first have been read, nothing has been recorded, and the tokens of the
second lie ahead; from there on the parser goes as a new one does.

## Contents
- `tokens_append_newline`: the tokens of two texts, one below the other.
- `Divided`, `Divided.ends`: tokens that do not carry on the statement in front of them.
- `parse_append`: whole sources.
-/

namespace LetLang

open Text

/-! ## Texts -/

/-- **The tokens of two texts, one below the other, are those of the first and those of the second.** -/
theorem tokens_append_newline (upper lower : String) :
    (Cursor.ofString (upper ++ "\n" ++ lower)).tokens =
      (Cursor.ofString upper).tokens ++ (Cursor.ofString lower).tokens :=
  tokens_append_blanks upper lower (by decide)

/-! ## Tokens -/

/-- The tokens `rest` do not carry on a statement at the end of `tokens`: there is none, or it has a
    semicolon, or `rest` begins neither with a semicolon nor with an operator between operands. -/
def Divided (tokens rest : List Token) : Prop :=
  tokens = [] ∨ tokens.getLast?.map Token.kind = some .semicolon ∨
    ∀ token ∈ rest.head?, token.kind ≠ .semicolon ∧ token.kind ∉ Kind.binaryOperators

instance (tokens rest : List Token) : Decidable (Divided tokens rest) :=
  inferInstanceAs (Decidable (_ ∨ _ ∨ _))

section

variable {tokens taken rest : List Token} {stmt : Stmt}

theorem not_goesOn_of_head (h : ∀ token ∈ rest.head?, token.kind ∉ Kind.binaryOperators) :
    ¬GoesOn .lowest rest := by
  intro hgo
  obtain ⟨op, more, rfl, _, hop, _⟩ := hgo.exists_cons
  exact h op rfl (Tier.mem_binaryOperators hop)

/-- A statement at the very end of the tokens has no semicolon, so what does not carry it on leaves it as
    it is. -/
theorem Divided.ends (h : Divided tokens rest) (hstmt : DerivesStmt taken stmt)
    (hsuffix : taken <:+ tokens) : Ends [] rest := by
  obtain ⟨front, rfl⟩ := hsuffix
  have hne : taken ≠ [] := by
    obtain ⟨first, more, rfl, _⟩ := hstmt.exists_cons
    exact List.cons_ne_nil first more
  rcases h with h | h | h
  · exact absurd (List.append_eq_nil_iff.mp h).2 hne
  · obtain ⟨last, hlast, hsemi⟩ := Option.map_eq_some_iff.mp h
    have hmem := mem_of_getLast?_append front hne last hlast
    exact absurd hsemi (hstmt.isStatement.inner last hmem).2
  · exact .nothing (fun token htoken => (h token htoken).1)
      (not_goesOn_of_head fun token htoken => (h token htoken).2)

end

/-! ## Whole sources -/

/-- **Sources can be put one below the other.** Let the first have no mistakes, and let the second not
    carry its last statement on. Then the statements are those of the first and those of the second, and
    the diagnostics are those of the second, whatever its mistakes. -/
theorem parse_append {upper lower : String} (h : (parse upper).2.diagnostics = #[])
    (hdivided : Divided (Cursor.ofString upper).tokens (Cursor.ofString lower).tokens) :
    (parse (upper ++ "\n" ++ lower)).1.statements =
        (parse upper).1.statements ++ (parse lower).1.statements ∧
      (parse (upper ++ "\n" ++ lower)).2.diagnostics = (parse lower).2.diagnostics := by
  have hderives := (Parser.start .standard (.ofString upper)).loop_statements.derives rfl
    (Parser.reads_start _ _) h
  have hs := Parser.reads_start .standard (.ofString (upper ++ "\n" ++ lower))
  rw [tokens_append_newline] at hs
  obtain ⟨t, hdialect, ht, hdiagnostics, heq⟩ :=
    Parser.statements_append hderives (fun _ _ => hdivided.ends) rfl hs
  -- Behind the first source the parser has the second in front of it, as a new one has.
  have hagree : Parser.Agree (.start .standard (.ofString lower)) t :=
    Parser.agree_of_reads hdialect (Parser.reads_start _ _) ht
  obtain ⟨hstmts, hsame⟩ := hagree.statements_congr hdiagnostics
  unfold parse Parser.program
  dsimp only
  rw [heq, hstmts]
  exact ⟨rfl, hsame⟩

/-- A binding without a semicolon, and below it a source with mistakes. -/
theorem parse_append_binding :
    (parse "let x = 1").2.diagnostics = #[] ∧
      Divided (Cursor.ofString "let x = 1").tokens (Cursor.ofString "y ) * (z").tokens ∧
      (parse ("let x = 1" ++ "\n" ++ "y ) * (z")).1.statements =
        (parse "let x = 1").1.statements ++ (parse "y ) * (z").1.statements ∧
      (parse ("let x = 1" ++ "\n" ++ "y ) * (z")).2.diagnostics =
        (parse "y ) * (z").2.diagnostics := by
  have haccepted : (parse "let x = 1").2.diagnostics = #[] := by decide +kernel
  have hdivided :
      Divided (Cursor.ofString "let x = 1").tokens (Cursor.ofString "y ) * (z").tokens := by
    decide +kernel
  exact ⟨haccepted, hdivided, parse_append haccepted hdivided⟩

/-- A sign at the beginning of the second source is read as an operator. -/
example : (parse ("1" ++ "\n" ++ "-2")).1.statements ≠
    (parse "1").1.statements ++ (parse "-2").1.statements := by
  decide +kernel

end LetLang
