import LetLang.Proofs.Grammar
import LetLang.Proofs.Scanning

/-!
# `LetLang.Proofs.Rendering` — the tokens of a rendering

The text of an expression is read back as the tokens that it was put together from. No two pieces of it
run together: a word or a number has an operator, a parenthesis or the end of a statement behind it, and
what stands behind an operator does not begin with `=`.

## Contents
- `Clear`: bytes that carry on no word and no number.
- `tokensOf_isWord`, `tokensOf_isNumeral`, `tokensOf_name`: the three sorts of pieces.
- `firstToken`: the token that a piece is read as, with `firstToken_eq`.
- `Expr.Writable`, `Stmt.Writable`, `Program.Writable`: trees that the language can write.
- `Expr.tokens`, `Stmt.tokens`, with `tokensOf_renderExpr`, `tokensOf_renderStmt` and
  `tokensOf_renderProgram`.
-/

namespace LetLang

open Text

/-! ## Pieces -/

/-- The bytes begin with no letter and no digit. -/
def Clear (rest : List UInt8) : Prop :=
  ∀ b ∈ rest.head?, isLetter b = false ∧ isDigit b = false

theorem clear_nil : Clear [] := by
  intro b hb
  cases hb

theorem clear_cons {b : UInt8} {bs : List UInt8} (hletter : isLetter b = false)
    (hdigit : isDigit b = false) : Clear (b :: bs) := by
  intro a ha
  obtain rfl := Option.some.inj ha
  exact ⟨hletter, hdigit⟩

section

variable {rest : List UInt8}

theorem isLetter_utf8 {word : String} (h : IsWord word) : ∀ b ∈ utf8 word, isLetter b = true := by
  intro b hb
  rw [isLetter_iff]
  exact all_utf8 (fun _ => lt_of_isNameChar) h.2 b hb

theorem isDigit_utf8 {text : String} (h : IsNumeral text) : ∀ b ∈ utf8 text, isDigit b = true := by
  intro b hb
  rw [isDigit_iff]
  exact all_utf8 (fun _ => lt_of_isDigit) h.2 b hb

/-- **A word is read as one token**, where it ends. -/
theorem tokensOf_isWord {word : String} (h : IsWord word) (hrest : Clear rest) :
    tokensOf (utf8 word ++ rest) = ⟨Kind.ofWord word, word⟩ :: tokensOf rest := by
  rw [tokensOf_word (utf8_ne_nil h.1) (isLetter_utf8 h) fun b hb => (hrest b hb).1,
    asciiText_utf8 fun c hc => lt_of_isNameChar (h.2 c hc)]

/-- **A number is read as one token**, where it ends. -/
theorem tokensOf_isNumeral {text : String} (h : IsNumeral text) (hrest : Clear rest) :
    tokensOf (utf8 text ++ rest) = ⟨.int, text⟩ :: tokensOf rest := by
  rw [tokensOf_number (utf8_ne_nil h.1) (isDigit_utf8 h) fun b hb => (hrest b hb).2,
    asciiText_utf8 fun c hc => lt_of_isDigit (h.2 c hc)]

/-- All symbols but two are single bytes. -/
theorem utf8_name {kind : Kind} (h : kind ∈ Kind.symbols) (hequal : kind ≠ .equal)
    (hnotEqual : kind ≠ .notEqual) :
    ∃ b, utf8 kind.name = [b] ∧ Kind.ofSymbol? (Char.ofUInt8 b) = some kind := by
  refine ⟨(utf8 kind.name).headD 0, ?_⟩
  revert h hequal hnotEqual
  cases kind <;> decide

/-- **A symbol is read as one token**, where no `=` follows that would make it a longer one. -/
theorem tokensOf_name {kind : Kind} (h : kind ∈ Kind.symbols)
    (hrest : kind = .assign ∨ kind = .not → rest.head? ≠ some 0x3d) :
    tokensOf (utf8 kind.name ++ rest) = ⟨kind, kind.name⟩ :: tokensOf rest := by
  by_cases hequal : kind = .equal
  · subst hequal
    exact tokensOf_equal rest
  by_cases hnotEqual : kind = .notEqual
  · subst hnotEqual
    exact tokensOf_notEqual rest
  obtain ⟨b, hbyte, hsymbol⟩ := utf8_name h hequal hnotEqual
  rw [hbyte]
  apply tokensOf_symbol hsymbol
  intro hb
  apply hrest
  -- Only two of the symbols are the first byte of a longer one.
  rcases hb with hb | hb
  · rw [hb] at hsymbol
    exact .inl (Option.some.inj hsymbol).symm
  · rw [hb] at hsymbol
    exact .inr (Option.some.inj hsymbol).symm

/-- No symbol begins with a letter or a digit. -/
theorem clear_name {kind : Kind} (h : kind ∈ Kind.symbols) : Clear (utf8 kind.name ++ rest) := by
  have hhead : ∃ b bs, utf8 kind.name = b :: bs ∧ isLetter b = false ∧ isDigit b = false := by
    refine ⟨(utf8 kind.name).headD 0, (utf8 kind.name).tail, ?_⟩
    revert h
    cases kind <;> decide
  obtain ⟨b, bs, hbytes, hletter, hdigit⟩ := hhead
  rw [hbytes]
  exact clear_cons hletter hdigit

end

/-- The first token of a text. -/
def firstToken (text : String) : Token := (tokenize text).headD .eof

theorem firstToken_eq {text : String} {token : Token} {tokens : List Token}
    (h : tokensOf (utf8 text ++ []) = token :: tokens) : firstToken text = token := by
  rw [firstToken, tokenize_eq, ← List.append_nil (utf8 text), h]
  rfl

theorem firstToken_isWord {word : String} (h : IsWord word) :
    firstToken word = ⟨Kind.ofWord word, word⟩ :=
  firstToken_eq (tokensOf_isWord h clear_nil)

theorem firstToken_isName {name : String} (h : IsName name) : firstToken name = ⟨.ident, name⟩ := by
  rw [firstToken_isWord h.1, Kind.ofWord, h.2]
  rfl

theorem firstToken_isNumeral {text : String} (h : IsNumeral text) :
    firstToken text = ⟨.int, text⟩ :=
  firstToken_eq (tokensOf_isNumeral h clear_nil)

theorem firstToken_name {kind : Kind} (h : kind ∈ Kind.symbols) :
    firstToken kind.name = ⟨kind, kind.name⟩ :=
  firstToken_eq (tokensOf_name h nofun)

/-! ## Trees that can be written -/

/-- The operators in front of an operand, `!` and `-`. -/
def Kind.unaryOperators : List Kind := [not, dash]

theorem Kind.mem_symbols_of_unary {kind : Kind} (h : kind ∈ unaryOperators) : kind ∈ symbols := by
  revert h
  cases kind <;> decide

theorem Kind.mem_symbols_of_binary {kind : Kind} (h : kind ∈ binaryOperators) :
    kind ∈ symbols := by
  revert h
  cases kind <;> decide

/-- The names, numbers and operators of the tree are all of the language. Its tokens may be any. -/
def Expr.Writable : Expr → Prop
  | identifier id => IsName id.name
  | integer _ value => 0 ≤ value ∧ value < int64Bound
  | boolean _ _ => True
  | unary _ operator right => operator ∈ Kind.unaryOperators.map Kind.name ∧ right.Writable
  | binary _ left operator right =>
    left.Writable ∧ operator ∈ Kind.binaryOperators.map Kind.name ∧ right.Writable

/-- The word in front of a statement is printed from its token, and so must be the right one. -/
def Stmt.Writable : Stmt → Prop
  | bind token name value => token.text = "let" ∧ IsName name.name ∧ value.Writable
  | ret token value => token.text = "return" ∧ value.Writable
  | expr _ value => value.Writable

def Program.Writable (program : Program) : Prop := ∀ stmt ∈ program.statements, stmt.Writable

instance Expr.decidableWritable : (e : Expr) → Decidable e.Writable
  | identifier id => inferInstanceAs (Decidable (IsName id.name))
  | integer _ value => inferInstanceAs (Decidable (0 ≤ value ∧ value < int64Bound))
  | boolean _ _ => inferInstanceAs (Decidable True)
  | unary _ operator right =>
    have := right.decidableWritable
    inferInstanceAs (Decidable (operator ∈ Kind.unaryOperators.map Kind.name ∧ right.Writable))
  | binary _ left operator right =>
    have := left.decidableWritable
    have := right.decidableWritable
    inferInstanceAs (Decidable
      (left.Writable ∧ operator ∈ Kind.binaryOperators.map Kind.name ∧ right.Writable))

instance Stmt.decidableWritable : (stmt : Stmt) → Decidable stmt.Writable
  | bind token name value =>
    inferInstanceAs (Decidable (token.text = "let" ∧ IsName name.name ∧ value.Writable))
  | ret token value => inferInstanceAs (Decidable (token.text = "return" ∧ value.Writable))
  | expr _ value => inferInstanceAs (Decidable value.Writable)

instance (program : Program) : Decidable program.Writable :=
  inferInstanceAs (Decidable (∀ stmt ∈ program.statements, stmt.Writable))

/-! ## Expressions -/

/-- The word for a truth value. -/
def truthWord : Bool → String
  | true => "true"
  | false => "false"

namespace Expr

/-- The tokens of the rendering of an expression. -/
def tokens : Expr → List Token
  | identifier id => [firstToken id.name]
  | integer _ value => [firstToken (decimal value)]
  | boolean _ value => [firstToken (truthWord value)]
  | unary _ operator right =>
    ⟨.openParen, "("⟩ :: (firstToken operator :: right.tokens ++ [⟨.closeParen, ")"⟩])
  | binary _ left operator right =>
    ⟨.openParen, "("⟩ :: (left.tokens ++ firstToken operator :: right.tokens ++ [⟨.closeParen, ")"⟩])

theorem render_boolean (token : Token) (value : Bool) :
    (boolean token value).render = truthWord value := by
  cases value <;> rfl

theorem isWord_truthWord (value : Bool) : IsWord (truthWord value) := by
  cases value <;> decide

end Expr

/-- A letter or a digit is no equals sign. -/
theorem ne_equals_sign {b : UInt8} (h : isLetter b = true ∨ isDigit b = true) : b ≠ 0x3d := by
  rintro rfl
  exact absurd h (by decide)

theorem head?_append_ne {bytes rest : List UInt8} {b : UInt8} (hne : bytes ≠ [])
    (h : ∀ a ∈ bytes, a ≠ b) : (bytes ++ rest).head? ≠ some b := by
  cases bytes with
  | nil => exact absurd rfl hne
  | cons a bytes =>
      intro heq
      exact h a List.mem_cons_self (Option.some.inj heq)

variable {rest : List UInt8}

/-- The text of an expression does not begin with `=`. -/
theorem head?_renderExpr_ne {e : Expr} (h : e.Writable) :
    (utf8 e.render ++ rest).head? ≠ some 0x3d := by
  have hword : ∀ {word : String}, IsWord word → (utf8 word ++ rest).head? ≠ some 0x3d := by
    intro word hword
    apply head?_append_ne (utf8_ne_nil hword.1)
    intro b hb
    exact ne_equals_sign (.inl (isLetter_utf8 hword b hb))
  cases e with
  | identifier id => exact hword h.1
  | integer token value =>
      obtain ⟨n, rfl⟩ := Int.eq_ofNat_of_zero_le h.1
      have hnumeral := isNumeral_decimal n
      apply head?_append_ne (utf8_ne_nil hnumeral.1)
      intro b hb
      exact ne_equals_sign (.inr (isDigit_utf8 hnumeral b hb))
  | boolean token value =>
      rw [Expr.render_boolean]
      exact hword (Expr.isWord_truthWord value)
  | unary | binary =>
      -- Operations begin with a parenthesis.
      simp only [Expr.render, utf8_append, List.append_assoc]
      intro heq
      exact absurd (Option.some.inj heq) (by decide)

theorem tokensOf_openParen (rest : List UInt8) :
    tokensOf (utf8 "(" ++ rest) = ⟨.openParen, "("⟩ :: tokensOf rest :=
  tokensOf_name (show Kind.openParen ∈ Kind.symbols by decide) nofun

theorem tokensOf_closeParen (rest : List UInt8) :
    tokensOf (utf8 ")" ++ rest) = ⟨.closeParen, ")"⟩ :: tokensOf rest :=
  tokensOf_name (show Kind.closeParen ∈ Kind.symbols by decide) nofun

/-- **The text of an expression is read as its tokens**, where it ends. -/
theorem tokensOf_renderExpr {e : Expr} (h : e.Writable) (hrest : Clear rest) :
    tokensOf (utf8 e.render ++ rest) = e.tokens ++ tokensOf rest := by
  induction e generalizing rest with
  | identifier id =>
      rw [Expr.tokens, firstToken_isWord h.1]
      exact tokensOf_isWord h.1 hrest
  | integer token value =>
      obtain ⟨n, rfl⟩ := Int.eq_ofNat_of_zero_le h.1
      rw [Expr.tokens, firstToken_isNumeral (isNumeral_decimal n)]
      exact tokensOf_isNumeral (isNumeral_decimal n) hrest
  | boolean token value =>
      have hword := Expr.isWord_truthWord value
      rw [Expr.tokens, Expr.render_boolean, firstToken_isWord hword]
      exact tokensOf_isWord hword hrest
  | unary token operator right ih =>
      -- The pieces are taken off one by one, each with what follows it.
      obtain ⟨hoperator, hright⟩ := h
      obtain ⟨kind, hkind, rfl⟩ := List.mem_map.mp hoperator
      have hsymbol := Kind.mem_symbols_of_unary hkind
      have hclose : Clear (utf8 ")" ++ rest) := clear_cons (by decide) (by decide)
      simp only [Expr.render, utf8_append, List.append_assoc]
      rw [tokensOf_openParen, tokensOf_name hsymbol fun _ => head?_renderExpr_ne hright,
        ih hright hclose, tokensOf_closeParen, Expr.tokens, firstToken_name hsymbol]
      simp
  | binary token left operator right ihleft ihright =>
      obtain ⟨hleft, hoperator, hright⟩ := h
      obtain ⟨kind, hkind, rfl⟩ := List.mem_map.mp hoperator
      have hsymbol := Kind.mem_symbols_of_binary hkind
      have hclose : Clear (utf8 ")" ++ rest) := clear_cons (by decide) (by decide)
      simp only [Expr.render, utf8_append, List.append_assoc]
      rw [tokensOf_openParen, ihleft hleft (clear_name hsymbol),
        tokensOf_name hsymbol fun _ => head?_renderExpr_ne hright, ihright hright hclose,
        tokensOf_closeParen, Expr.tokens, firstToken_name hsymbol]
      simp

/-! ## Statements and programs -/

namespace Stmt

/-- The tokens of the rendering of a statement, its semicolon apart. -/
def tokens : Stmt → List Token
  | bind token name value =>
    firstToken token.text :: firstToken name.name :: ⟨.assign, "="⟩ :: value.tokens
  | ret token value => firstToken token.text :: value.tokens
  | expr _ value => value.tokens

/-- The semicolon that is printed behind a statement, if there is one. -/
def ending : Stmt → List Token
  | bind _ _ _ | ret _ _ => [⟨.semicolon, ";"⟩]
  | expr _ _ => []

end Stmt

/-- The tokens of the rendering of some statements. -/
def Stmt.tokensOfAll (stmts : List Stmt) : List Token :=
  stmts.flatMap fun stmt => stmt.tokens ++ stmt.ending

theorem tokensOf_space (rest : List UInt8) : tokensOf (utf8 " " ++ rest) = tokensOf rest :=
  tokensOf_blank rest (b := 0x20) rfl

theorem tokensOf_newline (rest : List UInt8) : tokensOf (utf8 "\n" ++ rest) = tokensOf rest :=
  tokensOf_blank rest (b := 0x0a) rfl

theorem tokensOf_assign (rest : List UInt8) :
    tokensOf (utf8 " = " ++ rest) = ⟨.assign, "="⟩ :: tokensOf rest := by
  have hblank : tokensOf (0x20 :: rest) = tokensOf rest := tokensOf_blank rest rfl
  calc tokensOf (utf8 " = " ++ rest)
      = tokensOf (0x3d :: 0x20 :: rest) := tokensOf_blank _ rfl
    _ = ⟨.assign, "="⟩ :: tokensOf (0x20 :: rest) :=
      tokensOf_name (show Kind.assign ∈ Kind.symbols by decide) fun _ => by simp
    _ = ⟨.assign, "="⟩ :: tokensOf rest := by rw [hblank]

theorem tokensOf_semicolon (rest : List UInt8) :
    tokensOf (utf8 ";" ++ rest) = ⟨.semicolon, ";"⟩ :: tokensOf rest :=
  tokensOf_name (show Kind.semicolon ∈ Kind.symbols by decide) nofun

/-- **The text of a statement is read as its tokens**, where it ends. -/
theorem tokensOf_renderStmt {stmt : Stmt} (h : stmt.Writable) (hrest : Clear rest) :
    tokensOf (utf8 stmt.render ++ rest) = stmt.tokens ++ stmt.ending ++ tokensOf rest := by
  have hspace : ∀ bs, Clear (utf8 " " ++ bs) := by
    intro bs
    exact clear_cons rfl rfl
  have hassign : ∀ bs, Clear (utf8 " = " ++ bs) := by
    intro bs
    exact clear_cons rfl rfl
  have hsemicolon : ∀ bs, Clear (utf8 ";" ++ bs) := by
    intro bs
    exact clear_cons rfl rfl
  cases stmt with
  | bind token name value =>
      obtain ⟨hword, hname, hvalue⟩ := h
      have hlet : IsWord token.text := by rw [hword]; decide
      simp only [Stmt.render, utf8_append, List.append_assoc]
      rw [tokensOf_isWord hlet (hspace _), tokensOf_space, tokensOf_isWord hname.1 (hassign _),
        tokensOf_assign, tokensOf_renderExpr hvalue (hsemicolon _), tokensOf_semicolon,
        Stmt.tokens, firstToken_isWord hlet, firstToken_isWord hname.1]
      simp [Stmt.ending]
  | ret token value =>
      obtain ⟨hword, hvalue⟩ := h
      have hreturn : IsWord token.text := by rw [hword]; decide
      simp only [Stmt.render, utf8_append, List.append_assoc]
      rw [tokensOf_isWord hreturn (hspace _), tokensOf_space,
        tokensOf_renderExpr hvalue (hsemicolon _), tokensOf_semicolon, Stmt.tokens,
        firstToken_isWord hreturn]
      simp [Stmt.ending]
  | expr token value => simpa [Stmt.render, Stmt.tokens, Stmt.ending] using tokensOf_renderExpr h hrest

/-- **The text of a program is read as the tokens of its statements.** -/
theorem tokensOf_renderProgram {program : Program} (h : program.Writable) :
    tokensOf (utf8 program.render) = Stmt.tokensOfAll program.statements := by
  obtain ⟨stmts⟩ := program
  unfold Program.render
  induction stmts with
  | nil => exact tokensOf_nil
  | cons stmt stmts ih =>
      have hstmt : stmt.Writable := h stmt List.mem_cons_self
      have hrest : ∀ stmt' ∈ stmts, stmt'.Writable := by
        intro stmt' hmem
        exact h stmt' (List.mem_cons_of_mem stmt hmem)
      have hmore := ih hrest
      cases stmts with
      | nil =>
          have hline := tokensOf_renderStmt hstmt clear_nil
          simpa [Stmt.tokensOfAll] using hline
      | cons next stmts =>
          have hnewline : Clear (utf8 "\n" ++ utf8 ("\n".intercalate
            ((next :: stmts).map Stmt.render))) := clear_cons rfl rfl
          rw [List.map_cons, List.map_cons, String.intercalate_cons_cons, ← List.map_cons,
            utf8_append, utf8_append, List.append_assoc, tokensOf_renderStmt hstmt hnewline,
            tokensOf_newline, hmore]
          rfl

end LetLang
