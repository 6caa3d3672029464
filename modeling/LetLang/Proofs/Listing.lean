import LetLang.Proofs.NormalForm
import LetLang.Proofs.Transcripts

/-!
# `LetLang.Proofs.Listing` — rendered programs, line by line

A program is printed one statement a line. A statement is printed in visible ASCII characters alone, so
no line is broken in two, and it is read as itself without its neighbours: a rendering is an atom of the
grammar with its end behind it. So the lines of a rendered program, each read on its own, give the
statements that the whole text gives, and a session answers each line with the line itself.

## Contents
- `isVisible`, `Visible`: texts of visible ASCII characters, with `Stmt.Writable.visible`.
- `textLines`: the lines of a text.
- `Program.pieces`: the programs that the lines of a rendering are.
- `Program.listing`, `Program.Writable.listing_eq`: the lines of a rendering.
- `Program.Writable.answer_render`: a session answers a rendering with itself.
- `parse_listed`: the rendered program of any source, line by line.
-/

namespace LetLang

open Text

/-! ## Visible text -/

/-- The ASCII characters that are printed: the space, and no other blank. -/
def isVisible (c : Char) : Bool := 0x20 ≤ c.toNat && c.toNat < 0x7f

/-- All characters of the text are visible ones. -/
def Visible (text : String) : Prop := ∀ c ∈ text.toList, isVisible c = true

instance (text : String) : Decidable (Visible text) :=
  decidable_of_iff (text.toList.all isVisible = true) List.all_eq_true

section

variable {text other : String} {c : Char}

theorem lt_of_isVisible (h : isVisible c = true) : c.toNat < 0x80 := by
  simp only [isVisible, Bool.and_eq_true, decide_eq_true_eq] at h
  omega

theorem isVisible_of_isNameChar (h : isNameChar c = true) : isVisible c = true :=
  forall_ascii (p := fun c => isNameChar c = true → isVisible c = true) (by decide +kernel)
    (lt_of_isNameChar h) h

theorem isVisible_of_isDigit (h : c.isDigit = true) : isVisible c = true :=
  forall_ascii (p := fun c => c.isDigit = true → isVisible c = true) (by decide +kernel)
    (lt_of_isDigit h) h

theorem Visible.append (h : Visible text) (h' : Visible other) : Visible (text ++ other) := by
  unfold Visible
  rw [String.toList_append]
  exact List.forall_mem_append.mpr ⟨h, h'⟩

theorem IsWord.visible (h : IsWord text) : Visible text :=
  fun c hc => isVisible_of_isNameChar (h.2 c hc)

theorem Text.IsNumeral.visible (h : IsNumeral text) : Visible text :=
  fun c hc => isVisible_of_isDigit (h.2 c hc)

/-- Operators are visible. -/
theorem visible_of_mem_names {kinds : List Kind} (hkinds : ∀ kind ∈ kinds, kind ∈ Kind.symbols)
    (h : text ∈ kinds.map Kind.name) : Visible text := by
  obtain ⟨kind, hmem, rfl⟩ := List.mem_map.mp h
  have hsymbol := hkinds kind hmem
  revert hsymbol
  cases kind <;> decide

/-- There is no line feed among visible characters, -/
theorem Visible.newline_not_mem (h : Visible text) : '\n' ∉ text.toList := by
  intro hmem
  exact absurd (h _ hmem) (by decide)

/-- nor among the bytes that encode them. -/
theorem Visible.lineFeed_not_mem (h : Visible text) : lineFeed ∉ utf8 text := by
  intro hmem
  exact absurd (all_utf8 (fun _ => lt_of_isVisible) h _ hmem) (by decide)

end

/-- **The text of an expression is visible.** -/
theorem Expr.Writable.visible {e : Expr} (h : e.Writable) : Visible e.render := by
  induction e with
  | identifier => exact h.1.visible
  | integer token value =>
      obtain ⟨n, rfl⟩ := Int.eq_ofNat_of_zero_le h.1
      exact (isNumeral_decimal n).visible
  | boolean token value =>
      rw [render_boolean]
      exact (isWord_truthWord value).visible
  | unary token operator right ih =>
      obtain ⟨hoperator, hright⟩ := h
      have hvisible := visible_of_mem_names (fun _ => Kind.mem_symbols_of_unary) hoperator
      exact (((by decide : Visible "(").append hvisible).append (ih hright)).append (by decide)
  | binary token left operator right ihleft ihright =>
      obtain ⟨hleft, hoperator, hright⟩ := h
      have hvisible := visible_of_mem_names (fun _ => Kind.mem_symbols_of_binary) hoperator
      exact ((((by decide : Visible "(").append (ihleft hleft)).append hvisible).append
        (ihright hright)).append (by decide)

/-- **The text of a statement is visible**, and so it is one line. -/
theorem Stmt.Writable.visible {stmt : Stmt} (h : stmt.Writable) : Visible stmt.render := by
  cases stmt with
  | bind token name value =>
      obtain ⟨hword, hname, hvalue⟩ := h
      have hlet : Visible token.text := by rw [hword]; decide
      exact ((((hlet.append (by decide)).append hname.1.visible).append (by decide)).append
        (Expr.Writable.visible hvalue)).append (by decide)
  | ret token value =>
      obtain ⟨hword, hvalue⟩ := h
      have hreturn : Visible token.text := by rw [hword]; decide
      exact ((hreturn.append (by decide)).append (Expr.Writable.visible hvalue)).append (by decide)
  | expr token value => exact Expr.Writable.visible h

/-! ## The lines of a rendering -/

/-- The lines of a text, which are what stands between its line feeds. -/
def textLines (text : String) : List String := (text.toList.splitOn '\n').map String.ofList

/-- Texts of one line, put together with line feeds, are the lines again. -/
theorem textLines_intercalate {texts : List String} (hne : texts ≠ [])
    (h : ∀ text ∈ texts, '\n' ∉ text.toList) : textLines ("\n".intercalate texts) = texts := by
  have hsplit : ("\n".intercalate texts).toList.splitOn '\n' = texts.map String.toList := by
    rw [String.toList_intercalate]
    apply List.splitOn_intercalate
    · intro line hline
      obtain ⟨text, hmem, rfl⟩ := List.mem_map.mp hline
      exact h text hmem
    · simpa using hne
  rw [textLines, hsplit, List.map_map]
  exact (List.map_congr_left fun _ _ => String.ofList_toList).trans (List.map_id' _)

/-- With a line feed behind the last of them they are complete lines. -/
theorem completeLines_intercalate {texts : List String} (hne : texts ≠ [])
    (h : ∀ text ∈ texts, Visible text) :
    CompleteLines (utf8 ("\n".intercalate texts) ++ [lineFeed]) texts := by
  induction texts with
  | nil => exact absurd rfl hne
  | cons text texts ih =>
      obtain ⟨hfirst, hmore⟩ := List.forall_mem_cons.mp h
      have htext : ofUtf8? (utf8 text) = some text := ofUtf8?_eq_some_iff.mpr rfl
      cases texts with
      | nil => exact .cons hfirst.lineFeed_not_mem htext .nil
      | cons next texts =>
          have hrest := ih (List.cons_ne_nil next texts) hmore
          rw [String.intercalate_cons_cons, utf8_append, utf8_append, List.append_assoc,
            List.append_assoc]
          exact .cons hfirst.lineFeed_not_mem htext hrest

namespace Program

/-- The programs that are printed on the lines of a program: each of its statements alone, or the empty
    program, which is printed on a line too. -/
def pieces (program : Program) : List Program :=
  match program.statements with
  | [] => [⟨[]⟩]
  | stmts => stmts.map fun stmt => ⟨[stmt]⟩

variable {program : Program}

theorem pieces_of_ne_nil (h : program.statements ≠ []) :
    program.pieces = program.statements.map fun stmt => ⟨[stmt]⟩ := by
  unfold pieces
  split
  · next hnil => exact absurd hnil h
  · rfl

theorem pieces_of_eq_nil (h : program.statements = []) : program.pieces = [program] := by
  obtain ⟨stmts⟩ := program
  obtain rfl : stmts = [] := h
  rfl

theorem pieces_ne_nil (program : Program) : program.pieces ≠ [] := by
  by_cases h : program.statements = []
  · simp [pieces_of_eq_nil h]
  · simpa [pieces_of_ne_nil h] using h

/-- The pieces have the statements of the program. -/
theorem flatMap_pieces (program : Program) : program.pieces.flatMap statements = program.statements := by
  by_cases h : program.statements = []
  · simp [pieces_of_eq_nil h]
  · rw [pieces_of_ne_nil h, List.flatMap_map]
    exact List.flatMap_singleton' _

theorem render_singleton (stmt : Stmt) : (⟨[stmt]⟩ : Program).render = stmt.render := rfl

theorem map_render_pieces (h : program.statements ≠ []) :
    program.pieces.map render = program.statements.map Stmt.render := by
  rw [pieces_of_ne_nil h, List.map_map]
  apply List.map_congr_left
  intro stmt _
  exact render_singleton stmt

/-- They are printed as the program is, with line feeds between them. -/
theorem intercalate_pieces (program : Program) :
    "\n".intercalate (program.pieces.map render) = program.render := by
  by_cases h : program.statements = []
  · simp [pieces_of_eq_nil h]
  · rw [map_render_pieces h, render]

theorem Writable.of_mem_pieces (h : program.Writable) {piece : Program} (hmem : piece ∈ program.pieces) :
    piece.Writable ∧ Visible piece.render := by
  by_cases hnil : program.statements = []
  · rw [pieces_of_eq_nil hnil, List.mem_singleton] at hmem
    subst hmem
    refine ⟨h, ?_⟩
    rw [render, hnil]
    decide
  · rw [pieces_of_ne_nil hnil] at hmem
    obtain ⟨stmt, hstmt, rfl⟩ := List.mem_map.mp hmem
    refine ⟨?_, ?_⟩
    · intro stmt' hmem'
      obtain rfl := List.mem_singleton.mp hmem'
      exact h _ hstmt
    · rw [render_singleton]
      exact (h stmt hstmt).visible

theorem Writable.visible_of_mem (h : program.Writable) :
    ∀ text ∈ program.pieces.map render, Visible text := by
  intro text hmem
  obtain ⟨piece, hpiece, rfl⟩ := List.mem_map.mp hmem
  exact (h.of_mem_pieces hpiece).2

/-- The lines that a program is printed on. -/
def listing (program : Program) : List String := textLines program.render

/-- **The lines of a rendering are its pieces.** -/
theorem Writable.listing_eq (h : program.Writable) : program.listing = program.pieces.map render := by
  rw [listing, ← intercalate_pieces program]
  exact textLines_intercalate (by simp [pieces_ne_nil])
    fun text hmem => (h.visible_of_mem text hmem).newline_not_mem

theorem Writable.completeLines (h : program.Writable) :
    CompleteLines (utf8 program.render ++ [lineFeed]) (program.pieces.map render) := by
  have hlines := completeLines_intercalate (by simp [pieces_ne_nil]) h.visible_of_mem
  rwa [intercalate_pieces] at hlines

/-- **A session answers a rendering with itself.** -/
theorem Writable.answer_render (h : program.Writable) :
    answer .tree program.render = program.render ++ "\n" := by
  obtain ⟨hparse, hsilent⟩ := h.parse_eq
  have hempty : (parse program.render).2.diagnostics.isEmpty = true := by rw [hsilent]; rfl
  rw [answer, treeAnswer]
  simp only [hempty, if_true]
  rw [hparse, render_canon h]

theorem Writable.exchanges_pieces (h : program.Writable) :
    exchanges .tree (program.pieces.map render) =
      String.join ((program.pieces.map render).map fun line => ">> " ++ line ++ "\n") := by
  rw [exchanges]
  congr 1
  apply List.map_congr_left
  intro line hmem
  obtain ⟨piece, hpiece, rfl⟩ := List.mem_map.mp hmem
  rw [(h.of_mem_pieces hpiece).1.answer_render, prompt, String.append_assoc]

/-- The statements that the lines give one by one are those of the whole text. -/
theorem Writable.flatMap_lines (h : program.Writable) :
    (program.pieces.map render).flatMap (fun line => (parse line).1.statements) =
      program.reparse.1.statements := by
  have hpiece : ∀ piece ∈ program.pieces,
      (parse piece.render).1.statements = piece.statements.map Stmt.canon := by
    intro piece hmem
    rw [(h.of_mem_pieces hmem).1.parse_eq.1]
    rfl
  calc (program.pieces.map render).flatMap (fun line => (parse line).1.statements)
      = program.pieces.flatMap fun piece => (parse piece.render).1.statements := List.flatMap_map ..
    _ = program.pieces.flatMap fun piece => piece.statements.map Stmt.canon :=
      congrArg List.flatten (List.map_congr_left hpiece)
    _ = (program.pieces.flatMap statements).map Stmt.canon := List.map_flatMap.symm
    _ = program.statements.map Stmt.canon := by rw [flatMap_pieces]
    _ = program.reparse.1.statements := by rw [reparse, h.parse_eq.1, canon]

end Program

/-- **A rendered program is read line by line as it is read whole.** The source may be any text, with
    mistakes or without. Its program is printed with one line for each statement, if there is one. Every
    line is read without diagnostics, is printed as itself, and gives the statements that it gives within
    the whole text. A session over the text, with a line feed behind it, answers each line with the
    line. -/
theorem parse_listed (source : String) :
    ((parse source).1.statements ≠ [] →
      (parse source).1.listing = (parse source).1.statements.map Stmt.render) ∧
    (∀ line ∈ (parse source).1.listing,
      (parse line).2.diagnostics = #[] ∧ (parse line).1.render = line) ∧
    (parse source).1.listing.flatMap (fun line => (parse line).1.statements) =
      (parse source).1.reparse.1.statements ∧
    transcript .tree (utf8 (parse source).1.render ++ [lineFeed]) =
      ⟨String.join ((parse source).1.listing.map fun line => ">> " ++ line ++ "\n") ++ ">> \n", 0⟩ := by
  obtain ⟨hwritable, _⟩ := parse_coherent source
  generalize (parse source).1 = program at hwritable ⊢
  rw [hwritable.listing_eq]
  refine ⟨Program.map_render_pieces, ?_, hwritable.flatMap_lines, ?_⟩
  · intro line hmem
    obtain ⟨piece, hpiece, rfl⟩ := List.mem_map.mp hmem
    have hpieceWritable := (hwritable.of_mem_pieces hpiece).1
    obtain ⟨hparse, hsilent⟩ := hpieceWritable.parse_eq
    exact ⟨hsilent, by rw [hparse, Program.render_canon hpieceWritable]⟩
  · have hsession : transcript .tree (utf8 program.render ++ [lineFeed] ++ []) = _ :=
      hwritable.completeLines.transcript []
    rwa [List.append_nil, transcript_nil, hwritable.exchanges_pieces] at hsession

end LetLang
