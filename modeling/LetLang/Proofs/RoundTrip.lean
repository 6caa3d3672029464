import LetLang.Proofs.Acceptance
import LetLang.Proofs.Rendering

/-!
# `LetLang.Proofs.RoundTrip` — parsing undoes rendering

A tree that is built by hand may have any tokens, as only a few of them are printed. Its rendering is
read back as the same tree with the tokens that it is printed as. A rendering is an atom of the grammar,
so it can stand wherever an expression can, and no operator is ever read in another way than it was
printed.

## Contents
- `Expr.canon`, `Stmt.canon`, `Program.canon`: the tree with the tokens that it is printed as.
- `Expr.Canonical`, `Stmt.Canonical`, `Program.Canonical`: trees that have these tokens already.
- `Expr.derives_tokens`, `Stmt.derives_tokens`, `derives_tokensOfAll`: renderings are derived.
- `parse_render`: rendering a program and parsing the text.
-/

namespace LetLang

open Text

/-! ## Canonical tokens -/

namespace Expr

/-- The tree with every token replaced by the one that it is printed as. -/
def canon : Expr → Expr
  | identifier id => identifier ⟨firstToken id.name, id.name⟩
  | integer _ value => integer (firstToken (decimal value)) value
  | boolean _ value => boolean (firstToken (truthWord value)) value
  | unary _ operator right => unary (firstToken operator) operator right.canon
  | binary _ left operator right => binary (firstToken operator) left.canon operator right.canon

/-- Every token of the tree is the one that it is printed as. -/
def Canonical : Expr → Prop
  | identifier id => firstToken id.name = id.token
  | integer token value => firstToken (decimal value) = token
  | boolean token value => firstToken (truthWord value) = token
  | unary token operator right => firstToken operator = token ∧ right.Canonical
  | binary token left operator right =>
    firstToken operator = token ∧ left.Canonical ∧ right.Canonical

theorem canon_eq_iff {e : Expr} : e.canon = e ↔ e.Canonical := by
  induction e with
  | identifier id =>
      obtain ⟨token, name⟩ := id
      simp [canon, Canonical]
  | integer | boolean => simp [canon, Canonical]
  | unary _ _ _ ih => simp [canon, Canonical, ih]
  | binary _ _ _ _ ihleft ihright => simp [canon, Canonical, ihleft, ihright]

end Expr

namespace Stmt

/-- The statement with canonical tokens. An expression statement has the first token of its text. -/
def canon : Stmt → Stmt
  | bind token name value =>
    bind (firstToken token.text) ⟨firstToken name.name, name.name⟩ value.canon
  | ret token value => ret (firstToken token.text) value.canon
  | expr _ value => expr (firstToken value.render) value.canon

def Canonical : Stmt → Prop
  | bind token name value =>
    firstToken token.text = token ∧ firstToken name.name = name.token ∧ value.Canonical
  | ret token value => firstToken token.text = token ∧ value.Canonical
  | expr token value => firstToken value.render = token ∧ value.Canonical

theorem canon_eq_iff {stmt : Stmt} : stmt.canon = stmt ↔ stmt.Canonical := by
  cases stmt with
  | bind token name value =>
      obtain ⟨token', name⟩ := name
      simp [canon, Canonical, Expr.canon_eq_iff]
  | ret | expr => simp [canon, Canonical, Expr.canon_eq_iff]

end Stmt

namespace Program

/-- The program with canonical tokens. -/
def canon (program : Program) : Program := ⟨program.statements.map Stmt.canon⟩

def Canonical (program : Program) : Prop := ∀ stmt ∈ program.statements, stmt.Canonical

theorem canon_eq_iff {program : Program} : program.canon = program ↔ program.Canonical := by
  obtain ⟨stmts⟩ := program
  simp only [canon, Canonical, mk.injEq]
  constructor
  · intro h stmt hmem
    have hmap : stmts.map Stmt.canon = stmts.map id := h.trans (List.map_id stmts).symm
    exact Stmt.canon_eq_iff.mp (List.map_inj_left.mp hmap stmt hmem)
  · intro h
    have hmap : stmts.map Stmt.canon = stmts.map id := by
      apply List.map_congr_left
      intro stmt hmem
      exact Stmt.canon_eq_iff.mpr (h stmt hmem)
    exact hmap.trans (List.map_id stmts)

end Program

/-! ## Renderings are derived -/

theorem Tier.rank_le_atom (tier : Tier) : tier.rank ≤ atom.rank := by
  cases tier <;> decide

/-- **A rendering is an atom**, and its tree is the canonical one. -/
theorem Expr.derives_tokens {e : Expr} (h : e.Writable) : Derives .atom e.tokens e.canon := by
  induction e with
  | identifier id =>
      rw [tokens, canon, firstToken_isName h]
      exact .name rfl
  | integer token value =>
      obtain ⟨hle, hlt⟩ := h
      obtain ⟨n, rfl⟩ := Int.eq_ofNat_of_zero_le hle
      have hvalue : Token.value ⟨.int, decimal n⟩ = n := digitsValue_decimal n
      have hderives : Derives .atom [⟨.int, decimal n⟩] (.integer ⟨.int, decimal n⟩ n) := by
        have hnumber := @Derives.number ⟨.int, decimal n⟩ rfl (by omega)
        rwa [hvalue] at hnumber
      rw [tokens, canon, firstToken_isNumeral (isNumeral_decimal n)]
      exact hderives
  | boolean token value =>
      rw [tokens, canon, firstToken_isWord (isWord_truthWord value)]
      cases value with
      | true => exact .truth (.inl rfl)
      | false => exact .truth (.inr rfl)
  | unary token operator right ih =>
      obtain ⟨hoperator, hright⟩ := h
      obtain ⟨kind, hkind, rfl⟩ := List.mem_map.mp hoperator
      have hunary : kind = .not ∨ kind = .dash := by simpa [Kind.unaryOperators] using hkind
      have hinner : Derives .unary (⟨kind, kind.name⟩ :: right.tokens) _ :=
        .unary hunary (.tighter (ih hright))
      rw [tokens, canon, firstToken_name (Kind.mem_symbols_of_unary hkind)]
      exact .group rfl (hinner.loosen (Nat.zero_le _)) rfl
  | binary token left operator right ihleft ihright =>
      obtain ⟨hleft, hoperator, hright⟩ := h
      obtain ⟨kind, hkind, rfl⟩ := List.mem_map.mp hoperator
      obtain ⟨tier, htier⟩ := Tier.exists_of_mem hkind
      have hinner : Derives tier (left.tokens ++ ⟨kind, kind.name⟩ :: right.tokens) _ :=
        .binary ((ihleft hleft).loosen tier.rank_le_atom) htier
          ((ihright hright).loosen tier.tighter.rank_le_atom)
      rw [tokens, canon, firstToken_name (Kind.mem_symbols_of_binary hkind)]
      exact .group rfl (hinner.loosen (Nat.zero_le _)) rfl

/-- The kinds that a rendering can begin with. No operator is among them, and no semicolon. -/
def Kind.starters : List Kind :=
  [letWord, returnWord, ident, int, trueWord, falseWord, openParen]

theorem Kind.not_semicolon_of_starters {kind : Kind} (h : kind ∈ starters) :
    kind ≠ semicolon ∧ Dialect.standard.power kind = none := by
  cases kind <;> simp [starters] at h <;> exact ⟨by decide, rfl⟩

theorem Expr.exists_tokens_cons {e : Expr} (h : e.Writable) :
    ∃ first more, e.tokens = first :: more ∧ first.kind ∈ Kind.starters := by
  cases e with
  | identifier id =>
      refine ⟨_, [], rfl, ?_⟩
      rw [firstToken_isName h]
      exact (by decide : Kind.ident ∈ Kind.starters)
  | integer token value =>
      obtain ⟨n, rfl⟩ := Int.eq_ofNat_of_zero_le h.1
      refine ⟨_, [], rfl, ?_⟩
      rw [firstToken_isNumeral (isNumeral_decimal n)]
      exact (by decide : Kind.int ∈ Kind.starters)
  | boolean token value =>
      refine ⟨_, [], rfl, ?_⟩
      rw [firstToken_isWord (isWord_truthWord value)]
      cases value <;> decide
  | unary | binary => exact ⟨⟨.openParen, "("⟩, _, rfl, by decide⟩

/-- **A rendered statement is derived**, and its tree is the canonical one. -/
theorem Stmt.derives_tokens {stmt : Stmt} (h : stmt.Writable) :
    DerivesStmt stmt.tokens stmt.canon := by
  cases stmt with
  | bind token name value =>
      obtain ⟨hword, hname, hvalue⟩ := h
      have hlet : (firstToken token.text).kind = .letWord := by
        rw [hword, firstToken_isWord (by decide)]
        rfl
      rw [tokens, canon, firstToken_isName hname]
      exact .bind hlet rfl rfl ((Expr.derives_tokens hvalue).loosen (Nat.zero_le _))
  | ret token value =>
      obtain ⟨hword, hvalue⟩ := h
      have hreturn : (firstToken token.text).kind = .returnWord := by
        rw [hword, firstToken_isWord (by decide)]
        rfl
      exact .ret hreturn ((Expr.derives_tokens hvalue).loosen (Nat.zero_le _))
  | expr token value =>
      obtain ⟨first, more, hcons, _⟩ := Expr.exists_tokens_cons h
      have hfirst : firstToken value.render = first :=
        firstToken_eq ((tokensOf_renderExpr h clear_nil).trans (by rw [hcons]; rfl))
      have hderives : Derives .equality value.tokens value.canon :=
        (Expr.derives_tokens h).loosen (Nat.zero_le _)
      rw [hcons] at hderives
      rw [tokens, canon, hcons, hfirst]
      exact .expr hderives

theorem Stmt.exists_tokens_cons {stmt : Stmt} (h : stmt.Writable) :
    ∃ first more, stmt.tokens = first :: more ∧ first.kind ∈ Kind.starters := by
  cases stmt with
  | bind => exact ⟨_, _, rfl, by rw [h.1, firstToken_isWord (by decide)]; decide⟩
  | ret => exact ⟨_, _, rfl, by rw [h.1, firstToken_isWord (by decide)]; decide⟩
  | expr => exact Expr.exists_tokens_cons h

/-- A rendered statement ends where the next one begins. -/
theorem Stmt.ends_ending {stmts : List Stmt} (h : ∀ stmt ∈ stmts, stmt.Writable) (stmt : Stmt) :
    Ends stmt.ending (tokensOfAll stmts) := by
  cases stmt with
  | bind | ret => exact .semicolon rfl
  | expr =>
      -- No semicolon is printed here, so it matters how the next line begins.
      cases stmts with
      | nil => exact .nothing nofun not_goesOn_nil
      | cons next stmts =>
          obtain ⟨first, more, hcons, hstarter⟩ := Stmt.exists_tokens_cons (h next List.mem_cons_self)
          obtain ⟨hsemi, hpower⟩ := Kind.not_semicolon_of_starters hstarter
          have htokens : tokensOfAll (next :: stmts)
              = first :: (more ++ next.ending ++ tokensOfAll stmts) := by
            rw [tokensOfAll, List.flatMap_cons, hcons]
            simp [tokensOfAll]
          rw [htokens]
          apply Ends.nothing
          · intro token htoken
            obtain rfl := Option.some.inj htoken
            exact hsemi
          · exact not_goesOn_cons hpower

/-- **Rendered statements are derived**, one behind the other. -/
theorem derives_tokensOfAll {stmts : List Stmt} (h : ∀ stmt ∈ stmts, stmt.Writable) :
    DerivesProgram (Stmt.tokensOfAll stmts) (stmts.map Stmt.canon) := by
  induction stmts with
  | nil => exact .nil
  | cons stmt stmts ih =>
      have hmore : ∀ next ∈ stmts, next.Writable := by
        intro next hmem
        exact h next (List.mem_cons_of_mem stmt hmem)
      rw [Stmt.tokensOfAll, List.flatMap_cons, List.append_assoc]
      exact .cons (Stmt.derives_tokens (h stmt List.mem_cons_self)) (Stmt.ends_ending hmore stmt)
        (ih hmore)

/-! ## Whole programs -/

/-- A program that can be written is read back with canonical tokens. -/
theorem Program.Writable.parse_eq {program : Program} (h : program.Writable) :
    (parse program.render).1 = program.canon ∧ (parse program.render).2.diagnostics = #[] := by
  apply parse_of_derives
  rw [Cursor.tokens_eq]
  have htokens : tokensOf (utf8 program.render) = _ := tokensOf_renderProgram h
  exact htokens ▸ derives_tokensOfAll h

/-- **Parsing undoes rendering.** A program that can be written, with whatever tokens, is read back from
    its rendering without diagnostics and with canonical tokens. So it is read back as it was exactly if
    its own tokens are canonical. -/
theorem parse_render {program : Program} (h : program.Writable) :
    (parse program.render).2.diagnostics = #[] ∧ (parse program.render).1 = program.canon ∧
      ((parse program.render).1 = program ↔ program.Canonical) := by
  obtain ⟨hparse, hsilent⟩ := h.parse_eq
  refine ⟨hsilent, hparse, ?_⟩
  rw [hparse]
  exact Program.canon_eq_iff

/-- A program whose tokens say nothing of what it means, the word in front of the binding apart. -/
def Program.handmade : Program :=
  ⟨[.bind ⟨.comma, "let"⟩ ⟨.eof, "x"⟩
      (.unary ⟨.int, "+"⟩ "-"
        (.binary .eof (.integer ⟨.ident, "007"⟩ 9223372036854775807) "*" (.identifier ⟨.eof, "y_"⟩))),
    .expr .eof (.unary .eof "!" (.boolean ⟨.falseWord, "false"⟩ true)),
    .expr ⟨.dash, "-"⟩ (.unary .eof "-" (.identifier ⟨.eof, "z"⟩))]⟩

/-- Its two expressions are read back as two statements, although one begins with a minus sign. -/
theorem parse_render_handmade :
    Program.handmade.Writable ∧
      Program.handmade.render = "let x = (-(9223372036854775807*y_));\n(!true)\n(-z)" ∧
      (parse Program.handmade.render).2.diagnostics = #[] ∧
      (parse Program.handmade.render).1 =
        ⟨[.bind ⟨.letWord, "let"⟩ ⟨⟨.ident, "x"⟩, "x"⟩
            (.unary ⟨.dash, "-"⟩ "-"
              (.binary ⟨.star, "*"⟩ (.integer ⟨.int, "9223372036854775807"⟩ 9223372036854775807) "*"
                (.identifier ⟨⟨.ident, "y_"⟩, "y_"⟩))),
          .expr ⟨.openParen, "("⟩ (.unary ⟨.not, "!"⟩ "!" (.boolean ⟨.trueWord, "true"⟩ true)),
          .expr ⟨.openParen, "("⟩ (.unary ⟨.dash, "-"⟩ "-" (.identifier ⟨⟨.ident, "z"⟩, "z"⟩))]⟩ ∧
      (parse Program.handmade.render).1 ≠ Program.handmade := by
  have hwritable : Program.handmade.Writable := by decide +kernel
  obtain ⟨hsilent, hparse, _⟩ := parse_render hwritable
  refine ⟨hwritable, by decide +kernel, hsilent, ?_, ?_⟩
  · rw [hparse]
    decide +kernel
  · rw [hparse]
    decide +kernel

end LetLang
