import LetLang.Parser.Statement
import LetLang.Proofs.Scanning

/-!
# `LetLang.Proofs.Window` — the tokens that a parser has in front of it

A parser holds two tokens and a cursor, and together they stand for all tokens from the current one on.
`Parser.Reads` relates the parser to that list; each step of a parser is then a step along the list. What
has been recorded of the run plays no part in it.

## Contents
- `Parser.Reads`, `Parser.Before`: the tokens from the current one on, and those behind the current one.
- `reads_start`, `Reads.advance`, `Reads.note`, `Reads.report`: every step keeps the window.
- `Reads.unique`: a parser reads one list at most.
- `Parser.Onward`: one parser is further along the list than another.
-/

namespace LetLang

namespace Parser

/-- The parser has the tokens `tokens` in front of it, from the current one on. -/
structure Reads (s : Parser) (tokens : List Token) : Prop where
  current : s.current = tokens.headD .eof
  peek : s.peek = tokens.tail.headD .eof
  later : s.cursor.tokens = tokens.tail.tail
  spelled : ∀ token ∈ tokens, token.Spelled

/-- The parser stands at a token that the tokens `rest` follow. -/
def Before (s : Parser) (rest : List Token) : Prop := ∃ last, s.Reads (last :: rest)

variable {s : Parser} {tokens rest : List Token} {first : Token}

/-! ## Steps -/

/-- **A new parser reads the tokens ahead of its cursor.** -/
theorem reads_start (dialect : Dialect) (c : Cursor) : (start dialect c).Reads c.tokens where
  current := c.next_token_eq
  peek := by
    show c.next.cursor.next.token = _
    rw [Cursor.next_token_eq, Cursor.next_cursor_tokens]
  later := by
    show c.next.cursor.next.cursor.tokens = _
    rw [Cursor.next_cursor_tokens, Cursor.next_cursor_tokens]
  spelled := c.tokens_spelled

theorem Reads.note (h : s.Reads tokens) (event : Event) : (s.note event).Reads tokens :=
  ⟨h.current, h.peek, h.later, h.spelled⟩

theorem Reads.report (h : s.Reads tokens) (diagnostic : Diagnostic) :
    (s.report diagnostic).Reads tokens :=
  ⟨h.current, h.peek, h.later, h.spelled⟩

/-- **An advance leaves the first token behind.** -/
theorem Reads.advance (h : s.Reads tokens) : s.advance.Reads tokens.tail where
  current := h.peek
  peek := by
    show s.cursor.next.token = _
    rw [Cursor.next_token_eq, h.later]
  later := by
    show s.cursor.next.cursor.tokens = _
    rw [Cursor.next_cursor_tokens, h.later]
  spelled token hmem := h.spelled token (List.mem_of_mem_tail hmem)

/-! ## The two tokens in hand -/

theorem Reads.current_eq (h : s.Reads (first :: rest)) : s.current = first := h.current

theorem Reads.before (h : s.Reads (first :: rest)) : s.Before rest := ⟨first, h⟩

theorem Reads.first_spelled (h : s.Reads (first :: rest)) : first.Spelled :=
  h.spelled first List.mem_cons_self

/-- The current token is the end exactly when there is no token left. -/
theorem Reads.current_kind_eq_eof_iff (h : s.Reads tokens) :
    s.current.kind = .eof ↔ tokens = [] := by
  cases tokens with
  | nil =>
      have heof : s.current.kind = .eof := by rw [h.current]; rfl
      simp [heof]
  | cons token rest =>
      rw [h.current_eq]
      constructor
      · intro heof
        exact absurd heof h.first_spelled.kind_ne_eof
      · intro hnil
        cases hnil

theorem Reads.exists_cons (h : s.Reads tokens) (hne : s.current.kind ≠ .eof) :
    ∃ rest, tokens = s.current :: rest := by
  cases tokens with
  | nil => exact absurd (h.current_kind_eq_eof_iff.mpr rfl) hne
  | cons token rest => exact ⟨rest, by rw [h.current_eq]⟩

theorem Before.peek_eq (h : s.Before rest) : s.peek = rest.headD .eof := by
  obtain ⟨_, hreads⟩ := h
  exact hreads.peek

theorem Before.advance (h : s.Before rest) : s.advance.Reads rest := by
  obtain ⟨_, hreads⟩ := h
  exact hreads.advance

/-- The next token is the first of those that follow, unless there is none. -/
theorem Before.exists_cons (h : s.Before rest) (hne : s.peek.kind ≠ .eof) :
    ∃ more, rest = s.peek :: more := by
  cases rest with
  | nil => rw [h.peek_eq] at hne; exact absurd rfl hne
  | cons token more => exact ⟨more, by rw [h.peek_eq]; rfl⟩

/-- **A parser reads one list of tokens at most.** -/
theorem Reads.unique {tokens' : List Token} (h : s.Reads tokens) (h' : s.Reads tokens') :
    tokens = tokens' := by
  cases tokens with
  | nil => exact (h'.current_kind_eq_eof_iff.mp (h.current_kind_eq_eof_iff.mpr rfl)).symm
  | cons a rest =>
      have hne : s.current.kind ≠ .eof := by
        rw [h.current_eq]; exact h.first_spelled.kind_ne_eof
      obtain ⟨rest', rfl⟩ := h'.exists_cons hne
      have hrest : rest.tail = rest'.tail := h.later.symm.trans h'.later
      have hpeek : rest.headD .eof = rest'.headD .eof := h.peek.symm.trans h'.peek
      rw [h.current_eq]
      congr 1
      -- The end stands in for a missing second token, and is never one of the tokens themselves.
      cases rest with
      | nil =>
          cases rest' with
          | nil => rfl
          | cons b more =>
              have hb : b.kind = .eof := congrArg Token.kind hpeek.symm
              exact absurd hb (h'.spelled b (by simp)).kind_ne_eof
      | cons b more =>
          cases rest' with
          | nil =>
              have hb : b.kind = .eof := congrArg Token.kind hpeek
              exact absurd hb (h.spelled b (by simp)).kind_ne_eof
          | cons b' more' => rw [show b = b' from hpeek, show more = more' from hrest]

/-! ## Moving ahead -/

/-- What `t` reads is the end of what `s` reads. -/
def Onward (s t : Parser) : Prop :=
  ∀ ⦃tokens⦄, s.Reads tokens → ∃ rest, rest <:+ tokens ∧ t.Reads rest

theorem Onward.refl (s : Parser) : s.Onward s := by
  intro tokens h
  exact ⟨tokens, List.suffix_refl tokens, h⟩

theorem Onward.trans {t u : Parser} (hst : s.Onward t) (htu : t.Onward u) : s.Onward u := by
  intro tokens hs
  obtain ⟨middle, hmiddle, ht⟩ := hst hs
  obtain ⟨rest, hrest, hu⟩ := htu ht
  exact ⟨rest, hrest.trans hmiddle, hu⟩

theorem onward_advance (s : Parser) : s.Onward s.advance := by
  intro tokens h
  exact ⟨tokens.tail, List.tail_suffix tokens, h.advance⟩

theorem onward_report (s : Parser) (diagnostic : Diagnostic) : s.Onward (s.report diagnostic) := by
  intro tokens h
  exact ⟨tokens, List.suffix_refl tokens, h.report diagnostic⟩

theorem onward_takeOperator (s : Parser) : s.Onward s.takeOperator := by
  intro tokens h
  exact ⟨tokens.tail, List.tail_suffix tokens, h.advance.note _⟩

end Parser

end LetLang
