import LetLang.Proofs.Rendering
import LetLang.Proofs.Statements

/-!
# `LetLang.Proofs.Coherence` — nodes and their tokens

A node keeps the token that it was read from next to what it stands for, and the two are filled in at
different moments: an operator's token is put aside before its operand is read, the name of a binding is
taken as the parser steps onto it. Nothing in the trees themselves keeps them together. What does is the
grammar, which reads every node off tokens that a source can hold.

## Contents
- `Identifier.Coherent`, `Expr.Coherent`, `Stmt.Coherent`, `Program.Coherent`: each node is what its token
  says, down to the leaves.
- `Derives.coherent`, `DerivesStmt.coherent`: trees of the grammar are coherent.
- `Parser.Loop.coherent`: so are all statements that are read, whatever the mistakes around them.
- `parse_nodes_coherent`: every program of a source.
-/

namespace LetLang

open Text

/-! ## Coherent trees -/

/-- The token is an identifier, and its text is the name. -/
def Identifier.Coherent (id : Identifier) : Prop :=
  id.token.kind = .ident ∧ id.name = id.token.text ∧ IsName id.name

/-- The token is an operator out of `kinds`, spelled as these are named, and `operator` is its text. -/
def Token.Operates (token : Token) (kinds : List Kind) (operator : String) : Prop :=
  token.kind ∈ kinds ∧ operator = token.text ∧ token.text = token.kind.name

/-- Every node of the tree is what its token says. -/
def Expr.Coherent : Expr → Prop
  | identifier id => id.Coherent
  | integer token value =>
    (token.kind = .int ∧ IsNumeral token.text) ∧ value = token.value ∧ 0 ≤ value ∧ value < int64Bound
  | boolean token value =>
    (token.kind = .trueWord ∨ token.kind = .falseWord) ∧ (value = true ↔ token.kind = .trueWord) ∧
      token.text = (boolean token value).render
  | unary token operator right => token.Operates Kind.unaryOperators operator ∧ right.Coherent
  | binary token left operator right =>
    left.Coherent ∧ token.Operates Kind.binaryOperators operator ∧ right.Coherent

/-- The word in front of a statement is its token. An expression that stands alone has none. -/
def Stmt.Coherent : Stmt → Prop
  | bind token name value => token = ⟨.letWord, "let"⟩ ∧ name.Coherent ∧ value.Coherent
  | ret token value => token = ⟨.returnWord, "return"⟩ ∧ value.Coherent
  | expr _ value => value.Coherent

def Program.Coherent (program : Program) : Prop := ∀ stmt ∈ program.statements, stmt.Coherent

instance (id : Identifier) : Decidable id.Coherent := inferInstanceAs (Decidable (_ ∧ _ ∧ _))

instance (token : Token) (kinds : List Kind) (operator : String) :
    Decidable (token.Operates kinds operator) := inferInstanceAs (Decidable (_ ∧ _ ∧ _))

instance Expr.decidableCoherent : (e : Expr) → Decidable e.Coherent
  | identifier id => inferInstanceAs (Decidable id.Coherent)
  | integer token value => inferInstanceAs (Decidable ((token.kind = .int ∧ IsNumeral token.text) ∧
      value = token.value ∧ 0 ≤ value ∧ value < int64Bound))
  | boolean token value => inferInstanceAs (Decidable
      ((token.kind = .trueWord ∨ token.kind = .falseWord) ∧ (value = true ↔ token.kind = .trueWord) ∧
        token.text = (boolean token value).render))
  | unary token operator right =>
    have := right.decidableCoherent
    inferInstanceAs (Decidable (token.Operates Kind.unaryOperators operator ∧ right.Coherent))
  | binary token left operator right =>
    have := left.decidableCoherent
    have := right.decidableCoherent
    inferInstanceAs (Decidable
      (left.Coherent ∧ token.Operates Kind.binaryOperators operator ∧ right.Coherent))

/-! ## Tokens that a source can hold -/

section

variable {token : Token} {tokens : List Token}

theorem Token.Spelled.identifier_coherent (h : token.Spelled) (hkind : token.kind = .ident) :
    Identifier.Coherent ⟨token, token.text⟩ :=
  ⟨hkind, rfl, h.isName hkind⟩

theorem Token.Spelled.operates {kinds : List Kind} (h : token.Spelled) (hkind : token.kind ∈ kinds)
    (hsymbol : token.kind ∈ Kind.symbols) : token.Operates kinds token.text :=
  ⟨hkind, rfl, h.text_eq_name hsymbol⟩

/-- A token of a reserved kind is the word that is reserved for it. -/
theorem Token.Spelled.eq_of_word {text : String} {kind : Kind} (h : token.Spelled)
    (hmem : (text, kind) ∈ Kind.reservedWords) (hkind : token.kind = kind) : token = ⟨kind, text⟩ := by
  subst hkind
  rw [← h.text_eq_word hmem]

/-- A truth value is printed as the word that it was read from. -/
theorem Token.Spelled.text_eq_truthWord (h : token.Spelled)
    (hkind : token.kind = .trueWord ∨ token.kind = .falseWord) :
    token.text = truthWord (token.kind == .trueWord) := by
  rcases hkind with hkind | hkind
  · have htoken : token = ⟨.trueWord, "true"⟩ := h.eq_of_word (by decide) hkind
    rw [htoken]
    rfl
  · have htoken : token = ⟨.falseWord, "false"⟩ := h.eq_of_word (by decide) hkind
    rw [htoken]
    rfl

/-! ## Trees of the grammar -/

/-- **A tree that the grammar reads from a source is coherent**, by induction on how it is derived. -/
theorem Derives.coherent {tier : Tier} {e : Expr} (h : Derives tier tokens e)
    (hspelled : ∀ token ∈ tokens, token.Spelled) : e.Coherent := by
  induction h with
  | name hkind => exact (hspelled _ List.mem_cons_self).identifier_coherent hkind
  | number hkind hmax =>
      exact ⟨⟨hkind, (hspelled _ List.mem_cons_self).isNumeral hkind⟩, rfl, Int.natCast_nonneg _,
        Int.ofNat_lt.mpr hmax⟩
  | truth hkind =>
      refine ⟨hkind, beq_iff_eq, ?_⟩
      rw [Expr.render_boolean]
      exact (hspelled _ List.mem_cons_self).text_eq_truthWord hkind
  | group _ _ _ ih =>
      apply ih
      intro token hmem
      exact hspelled token (by simp [hmem])
  | @unary op _ _ hop _ ih =>
      obtain ⟨hfirst, hrest⟩ := List.forall_mem_cons.mp hspelled
      have hunary : op.kind ∈ Kind.unaryOperators := by
        rcases hop with hop | hop <;> simp [hop, Kind.unaryOperators]
      exact ⟨hfirst.operates hunary (Kind.mem_symbols_of_unary hunary), ih hrest⟩
  | binary _ hop _ ihleft ihright =>
      obtain ⟨hleft, hrest⟩ := List.forall_mem_append.mp hspelled
      obtain ⟨hfirst, hright⟩ := List.forall_mem_cons.mp hrest
      have hbinary := Tier.mem_binaryOperators hop
      exact ⟨ihleft hleft, hfirst.operates hbinary (Kind.mem_symbols_of_binary hbinary), ihright hright⟩
  | tighter _ ih => exact ih hspelled

theorem DerivesStmt.coherent {stmt : Stmt} (h : DerivesStmt tokens stmt)
    (hspelled : ∀ token ∈ tokens, token.Spelled) : stmt.Coherent := by
  cases h with
  | bind hword hname hsign h =>
      obtain ⟨hfirst, hrest⟩ := List.forall_mem_cons.mp hspelled
      obtain ⟨hsecond, hrest⟩ := List.forall_mem_cons.mp hrest
      obtain ⟨_, hvalue⟩ := List.forall_mem_cons.mp hrest
      exact ⟨hfirst.eq_of_word (by decide) hword, hsecond.identifier_coherent hname,
        h.coherent hvalue⟩
  | ret hword h =>
      obtain ⟨hfirst, hvalue⟩ := List.forall_mem_cons.mp hspelled
      exact ⟨hfirst.eq_of_word (by decide) hword, h.coherent hvalue⟩
  | expr h => exact h.coherent hspelled

end

/-! ## Every source -/

/-- **All statements that the loop gives are coherent**, also those between attempts that fail. -/
theorem Parser.Loop.coherent {s t : Parser} {stmts : List Stmt} {tokens : List Token}
    (h : Loop s stmts t) (hdialect : s.dialect = .standard) (hs : s.Reads tokens) :
    ∀ stmt ∈ stmts, stmt.Coherent := by
  intro stmt hmem
  obtain ⟨taken, hderives, hspelled⟩ := h.derives_of_mem hdialect hs stmt hmem
  exact hderives.coherent hspelled

/-- **Every node of a program is coherent with its token.** The source may be any text, with mistakes or
    without. -/
theorem parse_nodes_coherent (source : String) : (parse source).1.Coherent :=
  (Parser.start .standard (.ofString source)).loop_statements.coherent rfl
    (Parser.reads_start .standard _)

/-- Trees that are built by hand need not be so. -/
example : ¬(Expr.boolean ⟨.trueWord, "true"⟩ false).Coherent := by decide

end LetLang
