import LetLang.Proofs.Coherence
import LetLang.Proofs.RoundTrip

/-!
# `LetLang.Proofs.NormalForm` — renderings are normal forms

A parser builds its trees from tokens that a source can hold, so each token of a tree says what the tree
means. Two sorts of tokens are not the ones that the tree is printed as: an integer may be written with
leading zeros, and an expression statement may begin at another token than its rendering does. These are
all that a rendering changes, and it changes them once.

## Contents
- `Expr.normal`, `Stmt.normal`, `Program.normal`: the trees with these two sorts of tokens replaced.
- `Expr.Coherent.canon_eq`, `Stmt.Coherent.canon_eq`: a coherent tree can be written, and its canonical
  form is the normal one.
- `Program.render_canon`: canonical tokens are printed as the others are.
- `parse_normalizes`: parsing, rendering and parsing again, for every source.
-/

namespace LetLang

open Text

/-! ## Normal trees -/

/-- The tree with the text of every integer token replaced by the decimal of the value. -/
def Expr.normal : Expr → Expr
  | identifier id => identifier id
  | integer token value => integer { token with text := decimal value } value
  | boolean token value => boolean token value
  | unary token operator right => unary token operator right.normal
  | binary token left operator right => binary token left.normal operator right.normal

/-- The statement with its integers in decimal. An expression statement has the first token of its
    text. -/
def Stmt.normal : Stmt → Stmt
  | bind token name value => bind token name value.normal
  | ret token value => ret token value.normal
  | expr _ value => expr (firstToken value.render) value.normal

def Program.normal (program : Program) : Program := ⟨program.statements.map Stmt.normal⟩

/-! ## Trees that are read from a source -/

theorem Token.Operates.firstToken_eq {token : Token} {kinds : List Kind} {operator : String}
    (h : token.Operates kinds operator) (hsymbol : token.kind ∈ Kind.symbols) :
    firstToken operator = token := by
  obtain ⟨_, rfl, hname⟩ := h
  rw [hname, firstToken_name hsymbol, ← hname]

theorem Token.Operates.mem_names {token : Token} {kinds : List Kind} {operator : String}
    (h : token.Operates kinds operator) : operator ∈ kinds.map Kind.name := by
  obtain ⟨hmem, rfl, hname⟩ := h
  exact List.mem_map.mpr ⟨token.kind, hmem, hname.symm⟩

theorem Identifier.Coherent.firstToken_eq {id : Identifier} (h : id.Coherent) :
    firstToken id.name = id.token := by
  obtain ⟨hkind, hname, hisName⟩ := h
  rw [firstToken_isName hisName, hname, ← hkind]

/-- **A coherent tree can be written, and its canonical form is the normal one.** -/
theorem Expr.Coherent.canon_eq {e : Expr} (h : e.Coherent) : e.Writable ∧ e.canon = e.normal := by
  induction e with
  | identifier id =>
      refine ⟨h.2.2, ?_⟩
      rw [canon, normal, h.firstToken_eq]
  | integer token value =>
      obtain ⟨⟨hkind, _⟩, _, hle, hlt⟩ := h
      refine ⟨⟨hle, hlt⟩, ?_⟩
      obtain ⟨n, rfl⟩ := Int.eq_ofNat_of_zero_le hle
      rw [canon, normal, firstToken_isNumeral (isNumeral_decimal n), hkind]
  | boolean token value =>
      obtain ⟨hkind, hvalue, htext⟩ := h
      refine ⟨trivial, ?_⟩
      have hfirst : firstToken (truthWord value) = token := by
        obtain ⟨kind, text⟩ := token
        obtain rfl : text = truthWord value := htext.trans (render_boolean _ value)
        rw [firstToken_isWord (isWord_truthWord value)]
        rcases hkind with rfl | rfl
        · rw [hvalue.mpr rfl]
          rfl
        · have hfalse : value = false := Bool.eq_false_iff.mpr (mt hvalue.mp Kind.noConfusion)
          rw [hfalse]
          rfl
      rw [canon, normal, hfirst]
  | unary token operator right ih =>
      obtain ⟨hoperates, hright⟩ := h
      obtain ⟨hwritable, heq⟩ := ih hright
      refine ⟨⟨hoperates.mem_names, hwritable⟩, ?_⟩
      rw [canon, normal, hoperates.firstToken_eq (Kind.mem_symbols_of_unary hoperates.1), heq]
  | binary token left operator right ihleft ihright =>
      obtain ⟨hleft, hoperates, hright⟩ := h
      obtain ⟨hwritableLeft, heqleft⟩ := ihleft hleft
      obtain ⟨hwritableRight, heqright⟩ := ihright hright
      refine ⟨⟨hwritableLeft, hoperates.mem_names, hwritableRight⟩, ?_⟩
      rw [canon, normal, hoperates.firstToken_eq (Kind.mem_symbols_of_binary hoperates.1), heqleft,
        heqright]

theorem Stmt.Coherent.canon_eq {stmt : Stmt} (h : stmt.Coherent) :
    stmt.Writable ∧ stmt.canon = stmt.normal := by
  cases stmt with
  | bind token name value =>
      obtain ⟨rfl, hname, hvalue⟩ := h
      obtain ⟨hwritable, heq⟩ := hvalue.canon_eq
      refine ⟨⟨rfl, hname.2.2, hwritable⟩, ?_⟩
      rw [canon, normal, heq, hname.firstToken_eq, firstToken_isWord (by decide)]
      rfl
  | ret token value =>
      obtain ⟨rfl, hvalue⟩ := h
      obtain ⟨hwritable, heq⟩ := hvalue.canon_eq
      refine ⟨⟨rfl, hwritable⟩, ?_⟩
      rw [canon, normal, heq, firstToken_isWord (by decide)]
      rfl
  | expr token value =>
      obtain ⟨hwritable, heq⟩ := Expr.Coherent.canon_eq h
      refine ⟨hwritable, ?_⟩
      rw [canon, normal, heq]

/-- **Whatever its mistakes, a source gives a program that can be written**, and its canonical form is
    the normal one. -/
theorem parse_coherent (source : String) :
    (parse source).1.Writable ∧ (parse source).1.canon = (parse source).1.normal := by
  have hloop := (Parser.start .standard (.ofString source)).loop_statements
  have hcoherent : ∀ stmt ∈ (parse source).1.statements,
      stmt.Writable ∧ stmt.canon = stmt.normal := by
    intro stmt hmem
    exact (hloop.coherent rfl (Parser.reads_start .standard _) stmt hmem).canon_eq
  constructor
  · intro stmt hmem
    exact (hcoherent stmt hmem).1
  · apply congrArg Program.mk
    apply List.map_congr_left
    intro stmt hmem
    exact (hcoherent stmt hmem).2

/-! ## Rendering canonical trees -/

theorem Expr.render_canon (e : Expr) : e.canon.render = e.render := by
  induction e with
  | identifier | integer => rfl
  | boolean token value => cases value <;> rfl
  | unary _ _ _ ih => simp [canon, render, ih]
  | binary _ _ _ _ ihleft ihright => simp [canon, render, ihleft, ihright]

theorem Stmt.render_canon {stmt : Stmt} (h : stmt.Writable) : stmt.canon.render = stmt.render := by
  cases stmt with
  | bind token name value =>
      have htext : (firstToken token.text).text = token.text := by
        rw [h.1, firstToken_isWord (by decide)]
      simp [canon, render, htext, Expr.render_canon]
  | ret token value =>
      have htext : (firstToken token.text).text = token.text := by
        rw [h.1, firstToken_isWord (by decide)]
      simp [canon, render, htext, Expr.render_canon]
  | expr token value => simp [canon, render, Expr.render_canon]

theorem Program.render_canon {program : Program} (h : program.Writable) :
    program.canon.render = program.render := by
  have hlines : (program.statements.map Stmt.canon).map Stmt.render =
      program.statements.map Stmt.render := by
    rw [List.map_map]
    apply List.map_congr_left
    intro stmt hmem
    exact Stmt.render_canon (h stmt hmem)
  simp only [canon, render, hlines]

/-! ## Every source -/

/-- The program that is read back from the text of a program, with the parser at its end. -/
def Program.reparse (program : Program) : Program × Parser := parse program.render

/-- **Renderings are normal forms.** Take the program of any source, with diagnostics or without, the one
    that is read back from it, and the one that is read back from that. The last two have no diagnostics
    and are the same, all three have one rendering, and the second is the first with integers in decimal
    and with the first token of its rendering on each expression statement. -/
theorem parse_normalizes (source : String) :
    (parse source).1.reparse.2.diagnostics = #[] ∧
      (parse source).1.reparse.1.reparse.2.diagnostics = #[] ∧
      (parse source).1.reparse.1.render = (parse source).1.render ∧
      (parse source).1.reparse.1.reparse.1.render = (parse source).1.render ∧
      (parse source).1.reparse.1.reparse.1 = (parse source).1.reparse.1 ∧
      (parse source).1.reparse.1 = (parse source).1.normal := by
  obtain ⟨hwritable, hcanon⟩ := parse_coherent source
  generalize (parse source).1 = first at hwritable hcanon ⊢
  obtain ⟨hsecond, hsilent⟩ := hwritable.parse_eq
  have hrender : first.reparse.1.render = first.render := by
    rw [Program.reparse, hsecond]
    exact Program.render_canon hwritable
  -- The second text is the first one, so the third program is the second one.
  have hthird : first.reparse.1.reparse = first.reparse := by
    rw [Program.reparse, hrender]
    rfl
  rw [hthird]
  exact ⟨hsilent, hsilent, hrender, hrender, rfl, hsecond.trans hcanon⟩

end LetLang
