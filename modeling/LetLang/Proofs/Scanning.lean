import LetLang.Proofs.Spelling

/-!
# `LetLang.Proofs.Scanning` — the tokens of some bytes

The tokens ahead of a cursor depend on the bytes ahead of it alone, so they are a function of bytes. It
skips blanks, takes a lexeme, and goes on behind it. A word ends only where no letter follows, a number
where no digit does, and one of the symbols `=` and `!` where no `=` does.

## Contents
- `Cursor.exists_drop`: to read a token moves the cursor over some bytes.
- `Cursor.next_token_eq`, `Cursor.next_cursor_tokens`: reading a token takes the first of those ahead.
- `Cursor.tokens_spelled`: all of them are tokens that a source can hold.
- `tokensOf`: the tokens of some bytes, with `Cursor.tokens_eq`.
- `tokensOf_blank`, `tokensOf_lexeme`: its two equations.
- `lexeme_word`, `lexeme_number`, `lexeme_symbol`, …: one lexeme of each sort at the front.
- `tokensOf_word`, `tokensOf_number`, `tokensOf_symbol`, …: the same as tokens.
-/

namespace LetLang

open Text

/-! ## Cursors -/

theorem drop_length_takeWhile {α : Type} (p : α → Bool) (l : List α) :
    l.drop (l.takeWhile p).length = l.dropWhile p := by
  have hsplit : l.takeWhile p ++ l.dropWhile p = l := List.takeWhile_append_dropWhile
  calc l.drop (l.takeWhile p).length
      = (l.takeWhile p ++ l.dropWhile p).drop (l.takeWhile p).length := by rw [hsplit]
    _ = l.dropWhile p := List.drop_left

namespace Cursor

theorem rest_skipBlanks (c : Cursor) : c.skipBlanks.rest = c.rest.dropWhile isBlank :=
  drop_length_takeWhile isBlank c.rest

/-- A token depends on the bytes ahead, and not on how many lie behind. -/
theorem next_congr {c d : Cursor} (h : c.rest = d.rest) :
    c.next.token = d.next.token ∧ c.next.cursor.rest = d.next.cursor.rest := by
  have hskip : c.skipBlanks.rest = d.skipBlanks.rest := by
    rw [rest_skipBlanks, rest_skipBlanks, h]
  unfold next
  dsimp only
  rw [hskip]
  split
  · exact ⟨rfl, hskip⟩
  · exact ⟨rfl, by simp only [drop, hskip]⟩

theorem tokens_of_eof {c : Cursor} (h : c.next.token.kind = .eof) : c.tokens = [] := by
  rw [tokens]
  exact if_pos h

theorem tokens_of_ne_eof {c : Cursor} (h : c.next.token.kind ≠ .eof) :
    c.tokens = c.next.token :: c.next.cursor.tokens := by
  rw [tokens]
  exact if_neg h

theorem length_next_lt {c : Cursor} (h : c.next.token.kind ≠ .eof) :
    c.next.cursor.rest.length < c.rest.length := by
  have hweight := c.weight_next
  rw [Token.weight, if_neg h] at hweight
  omega

/-- Bytes behind the cursor play no part in the tokens ahead of it. -/
theorem tokens_congr {c d : Cursor} (h : c.rest = d.rest) : c.tokens = d.tokens := by
  obtain ⟨htoken, hrest⟩ := next_congr h
  by_cases heof : c.next.token.kind = .eof
  · rw [tokens_of_eof heof, tokens_of_eof (htoken ▸ heof)]
  · have hne : d.next.token.kind ≠ .eof := htoken ▸ heof
    rw [tokens_of_ne_eof heof, tokens_of_ne_eof hne, tokens_congr hrest, htoken]
termination_by c.rest.length
decreasing_by exact length_next_lt heof

/-- Behind the blanks there is no byte, and the token is the end. -/
theorem next_of_nil {c : Cursor} (h : c.rest.dropWhile isBlank = []) :
    c.next = ⟨.eof, c.skipBlanks, none⟩ := by
  unfold next
  dsimp only
  rw [c.rest_skipBlanks, h]

/-- Behind the blanks there are bytes, and the token is that of the lexeme there. -/
theorem next_of_cons {c : Cursor} {b : UInt8} {bs : List UInt8}
    (h : c.rest.dropWhile isBlank = b :: bs) :
    c.next.token = (lexeme b bs).token ∧
      c.next.cursor.rest = (b :: bs).drop (lexeme b bs).bytes.length := by
  unfold next
  dsimp only
  rw [c.rest_skipBlanks, h]
  exact ⟨rfl, congrArg _ (c.rest_skipBlanks.trans h)⟩

/-- The cursor is left where the lexeme ends. -/
theorem next_cursor_of_cons {c : Cursor} {b : UInt8} {bs : List UInt8}
    (h : c.rest.dropWhile isBlank = b :: bs) :
    c.next.cursor = c.skipBlanks.drop (lexeme b bs).bytes.length := by
  unfold next
  dsimp only
  rw [c.rest_skipBlanks, h]

/-- Reading a token is a move. -/
theorem exists_drop (c : Cursor) : ∃ n, c.next.cursor = c.drop n := by
  unfold next
  dsimp only
  split
  · exact ⟨_, rfl⟩
  · next b bs _ =>
      refine ⟨(c.rest.takeWhile isBlank).length + (lexeme b bs).bytes.length, ?_⟩
      simp [skipBlanks, drop, List.drop_drop, Nat.add_assoc]

end Cursor

theorem not_isBlank_of_dropWhile {bytes : List UInt8} {b : UInt8} {bs : List UInt8}
    (h : bytes.dropWhile isBlank = b :: bs) : isBlank b = false := by
  have hhead := List.head?_dropWhile_not isBlank bytes
  rw [h] at hhead
  simpa using hhead

namespace Cursor

/-- **A token ahead of the end is one that a source can hold.** -/
theorem next_spelled {c : Cursor} (h : c.next.token.kind ≠ .eof) : c.next.token.Spelled := by
  cases hrest : c.rest.dropWhile isBlank with
  | nil => rw [next_of_nil hrest] at h; exact absurd rfl h
  | cons b bs =>
      rw [(next_of_cons hrest).1]
      exact lexeme_spelled bs (not_isBlank_of_dropWhile hrest)

theorem tokens_spelled (c : Cursor) : ∀ token ∈ c.tokens, token.Spelled := by
  induction c using tokens.induct with
  | case1 c scan heof => simp [tokens_of_eof heof]
  | case2 c scan hne ih =>
      intro token hmem
      rw [tokens_of_ne_eof hne] at hmem
      rcases List.mem_cons.mp hmem with rfl | hmem
      · exact next_spelled hne
      · exact ih token hmem

/-- A token of kind `eof` is the end token. -/
theorem next_eq_eof {c : Cursor} (h : c.next.token.kind = .eof) :
    c.next.token = .eof ∧ c.next.cursor.tokens = [] := by
  cases hrest : c.rest.dropWhile isBlank with
  | nil =>
      rw [next_of_nil hrest]
      refine ⟨rfl, tokens_of_eof ?_⟩
      -- Behind the blanks there still is nothing, so the end is read again.
      have hagain : c.skipBlanks.rest.dropWhile isBlank = [] := by rw [c.rest_skipBlanks, hrest]; rfl
      rw [next_of_nil hagain]
      rfl
  | cons b bs =>
      rw [(next_of_cons hrest).1] at h
      exact absurd h (lexeme_spelled bs (not_isBlank_of_dropWhile hrest)).kind_ne_eof

theorem next_token_eq (c : Cursor) : c.next.token = c.tokens.headD .eof := by
  by_cases heof : c.next.token.kind = .eof
  · rw [tokens_of_eof heof, (next_eq_eof heof).1]
    rfl
  · rw [tokens_of_ne_eof heof, List.headD_cons]

theorem next_cursor_tokens (c : Cursor) : c.next.cursor.tokens = c.tokens.tail := by
  by_cases heof : c.next.token.kind = .eof
  · rw [tokens_of_eof heof, (next_eq_eof heof).2, List.tail_nil]
  · rw [tokens_of_ne_eof heof, List.tail_cons]

end Cursor

/-! ## The tokens of some bytes -/

/-- The tokens of some bytes, the end apart. -/
def tokensOf (bytes : List UInt8) : List Token := (Cursor.mk bytes 0).tokens

theorem Cursor.tokens_eq (c : Cursor) : c.tokens = tokensOf c.rest := tokens_congr rfl

theorem tokenize_eq (source : String) : tokenize source = tokensOf (utf8 source) ++ [.eof] := rfl

theorem tokensOf_of_nil {bytes : List UInt8} (h : bytes.dropWhile isBlank = []) :
    tokensOf bytes = [] :=
  Cursor.tokens_of_eof (by rw [Cursor.next_of_nil h]; rfl)

theorem tokensOf_of_cons {bytes : List UInt8} {b : UInt8} {bs : List UInt8}
    (h : bytes.dropWhile isBlank = b :: bs) :
    tokensOf bytes =
      (lexeme b bs).token :: tokensOf ((b :: bs).drop (lexeme b bs).bytes.length) := by
  obtain ⟨htoken, hrest⟩ := Cursor.next_of_cons (c := ⟨bytes, 0⟩) h
  have hspelled := lexeme_spelled bs (not_isBlank_of_dropWhile h)
  rw [tokensOf, Cursor.tokens_of_ne_eof (htoken ▸ hspelled.kind_ne_eof), htoken,
    Cursor.tokens_eq, hrest]

@[simp] theorem tokensOf_nil : tokensOf [] = [] := tokensOf_of_nil rfl

/-- A blank in front gives no token. -/
theorem tokensOf_blank {b : UInt8} (bs : List UInt8) (h : isBlank b = true) :
    tokensOf (b :: bs) = tokensOf bs := by
  have hrest : (b :: bs).dropWhile isBlank = bs.dropWhile isBlank := List.dropWhile_cons_of_pos h
  cases hbs : bs.dropWhile isBlank with
  | nil => rw [tokensOf_of_nil hbs, tokensOf_of_nil (hrest.trans hbs)]
  | cons a as => rw [tokensOf_of_cons hbs, tokensOf_of_cons (hrest.trans hbs)]

/-- **The lexeme at the front is the first token, and the others are those of the bytes behind it.** -/
theorem tokensOf_lexeme {b : UInt8} (bs : List UInt8) (h : isBlank b = false) :
    tokensOf (b :: bs) =
      (lexeme b bs).token :: tokensOf ((b :: bs).drop (lexeme b bs).bytes.length) :=
  tokensOf_of_cons (List.dropWhile_cons_of_neg (by rw [h]; exact Bool.false_ne_true))

/-! ## One lexeme in front -/

/-- Letters and digits are no blanks, and begin no symbol. -/
theorem isLetter_spec {b : UInt8} (h : isLetter b = true) :
    isBlank b = false ∧ Char.ofUInt8 b ≠ '=' ∧ Char.ofUInt8 b ≠ '!' ∧
      Kind.ofSymbol? (Char.ofUInt8 b) = none :=
  forall_byte (p := fun b => isLetter b = true → isBlank b = false ∧ Char.ofUInt8 b ≠ '=' ∧
    Char.ofUInt8 b ≠ '!' ∧ Kind.ofSymbol? (Char.ofUInt8 b) = none) (by decide +kernel) b h

theorem isDigit_spec {b : UInt8} (h : isDigit b = true) :
    isBlank b = false ∧ Char.ofUInt8 b ≠ '=' ∧ Char.ofUInt8 b ≠ '!' ∧
      Kind.ofSymbol? (Char.ofUInt8 b) = none ∧ isLetter b = false :=
  forall_byte (p := fun b => isDigit b = true → isBlank b = false ∧ Char.ofUInt8 b ≠ '=' ∧
    Char.ofUInt8 b ≠ '!' ∧ Kind.ofSymbol? (Char.ofUInt8 b) = none ∧ isLetter b = false)
    (by decide +kernel) b h

/-- A blank belongs to no run and to no longer operator. -/
theorem isBlank_spec {b : UInt8} (h : isBlank b = true) :
    isLetter b = false ∧ isDigit b = false ∧ b ≠ 0x3d :=
  forall_byte (p := fun b => isBlank b = true → isLetter b = false ∧ isDigit b = false ∧ b ≠ 0x3d)
    (by decide +kernel) b h

theorem ofSymbol_spec {b : UInt8} {kind : Kind} (h : Kind.ofSymbol? (Char.ofUInt8 b) = some kind) :
    isBlank b = false := by
  have hsome : (Kind.ofSymbol? (Char.ofUInt8 b)).isSome = true := by rw [h]; rfl
  exact forall_byte (p := fun b => (Kind.ofSymbol? (Char.ofUInt8 b)).isSome = true →
    isBlank b = false) (by decide +kernel) b hsome

/-- A run of a class ends where something follows that is not of the class. -/
theorem takeWhile_run {α : Type} {q : α → Bool} {run rest : List α} (hrun : ∀ b ∈ run, q b = true)
    (hrest : ∀ b ∈ rest.head?, q b = false) : (run ++ rest).takeWhile q = run := by
  rw [List.takeWhile_append_of_pos hrun]
  cases rest with
  | nil => exact List.append_nil run
  | cons b bs =>
      rw [List.takeWhile_cons_of_neg (by simp [hrest b rfl]), List.append_nil]

/-- The run of letters at the front is the lexeme. -/
theorem lexeme_word {b : UInt8} {bs rest : List UInt8} (hword : ∀ a ∈ b :: bs, isLetter a = true)
    (hrest : ∀ a ∈ rest.head?, isLetter a = false) :
    lexeme b (bs ++ rest) =
      ⟨⟨Kind.ofWord (asciiText (b :: bs)), asciiText (b :: bs)⟩, b :: bs⟩ := by
  have hb := hword b List.mem_cons_self
  obtain ⟨hblank, heq, hnot, hsymbol⟩ := isLetter_spec hb
  have hrun : (bs ++ rest).takeWhile isLetter = bs :=
    takeWhile_run (fun a ha => hword a (List.mem_cons_of_mem b ha)) hrest
  simp [lexeme, heq, hnot, hsymbol, hb, hrun]

/-- So is the run of digits. -/
theorem lexeme_number {b : UInt8} {bs rest : List UInt8}
    (hnumber : ∀ a ∈ b :: bs, isDigit a = true) (hrest : ∀ a ∈ rest.head?, isDigit a = false) :
    lexeme b (bs ++ rest) = ⟨⟨.int, asciiText (b :: bs)⟩, b :: bs⟩ := by
  have hb := hnumber b List.mem_cons_self
  obtain ⟨hblank, heq, hnot, hsymbol, hletter⟩ := isDigit_spec hb
  have hrun : (bs ++ rest).takeWhile isDigit = bs :=
    takeWhile_run (fun a ha => hnumber a (List.mem_cons_of_mem b ha)) hrest
  simp [lexeme, heq, hnot, hsymbol, hb, hletter, hrun]

theorem lexeme_symbol {b : UInt8} {rest : List UInt8} {kind : Kind}
    (hsymbol : Kind.ofSymbol? (Char.ofUInt8 b) = some kind)
    (hrest : Char.ofUInt8 b = '=' ∨ Char.ofUInt8 b = '!' → rest.head? ≠ some 0x3d) :
    lexeme b rest = ⟨⟨kind, kind.name⟩, [b]⟩ := by
  unfold lexeme
  rw [if_neg fun h => hrest (Or.inl h.1) h.2, if_neg fun h => hrest (Or.inr h.1) h.2, hsymbol]

theorem lexeme_equal (rest : List UInt8) :
    lexeme 0x3d (0x3d :: rest) = ⟨⟨.equal, "=="⟩, [0x3d, 0x3d]⟩ :=
  if_pos ⟨by decide, rfl⟩

theorem lexeme_notEqual (rest : List UInt8) :
    lexeme 0x21 (0x3d :: rest) = ⟨⟨.notEqual, "!="⟩, [0x21, 0x3d]⟩ := by
  unfold lexeme
  rw [if_neg (fun h => absurd h.1 (by decide)), if_pos ⟨by decide, rfl⟩]

/-- A byte of no class and no symbol is a lexeme by itself. -/
theorem lexeme_stray {b : UInt8} (rest : List UInt8) (hletter : isLetter b = false)
    (hdigit : isDigit b = false) (hsymbol : Kind.ofSymbol? (Char.ofUInt8 b) = none) :
    lexeme b rest = ⟨⟨.illegal, String.singleton (loneChar b)⟩, [b]⟩ := by
  -- The first bytes of the two longer operators are operators themselves.
  have hequal : Char.ofUInt8 b ≠ '=' := by
    intro heq
    rw [heq] at hsymbol
    exact nomatch hsymbol
  have hnot : Char.ofUInt8 b ≠ '!' := by
    intro heq
    rw [heq] at hsymbol
    exact nomatch hsymbol
  simp [lexeme, hequal, hnot, hsymbol, hletter, hdigit]

/-- A lexeme in front that takes the bytes `b :: bs`. -/
theorem tokensOf_of_lexeme {b : UInt8} (bs : List UInt8) {rest : List UInt8} {token : Token}
    (hblank : isBlank b = false) (h : lexeme b (bs ++ rest) = ⟨token, b :: bs⟩) :
    tokensOf (b :: (bs ++ rest)) = token :: tokensOf rest := by
  rw [tokensOf_lexeme _ hblank, h]
  simp

/-- **A word in front**, with no letter behind it. -/
theorem tokensOf_word {word rest : List UInt8} (hne : word ≠ [])
    (hword : ∀ b ∈ word, isLetter b = true) (hrest : ∀ b ∈ rest.head?, isLetter b = false) :
    tokensOf (word ++ rest) =
      ⟨Kind.ofWord (asciiText word), asciiText word⟩ :: tokensOf rest := by
  obtain ⟨b, bs, rfl⟩ := List.exists_cons_of_ne_nil hne
  have hblank := (isLetter_spec (hword b List.mem_cons_self)).1
  exact tokensOf_of_lexeme bs hblank (lexeme_word hword hrest)

/-- **A number in front**, with no digit behind it. -/
theorem tokensOf_number {number rest : List UInt8} (hne : number ≠ [])
    (hnumber : ∀ b ∈ number, isDigit b = true) (hrest : ∀ b ∈ rest.head?, isDigit b = false) :
    tokensOf (number ++ rest) = ⟨.int, asciiText number⟩ :: tokensOf rest := by
  obtain ⟨b, bs, rfl⟩ := List.exists_cons_of_ne_nil hne
  have hblank := (isDigit_spec (hnumber b List.mem_cons_self)).1
  exact tokensOf_of_lexeme bs hblank (lexeme_number hnumber hrest)

/-- **A symbol of one byte in front**, with no `=` behind it that would make it a longer one. -/
theorem tokensOf_symbol {b : UInt8} {rest : List UInt8} {kind : Kind}
    (hsymbol : Kind.ofSymbol? (Char.ofUInt8 b) = some kind)
    (hrest : Char.ofUInt8 b = '=' ∨ Char.ofUInt8 b = '!' → rest.head? ≠ some 0x3d) :
    tokensOf (b :: rest) = ⟨kind, kind.name⟩ :: tokensOf rest :=
  tokensOf_of_lexeme [] (ofSymbol_spec hsymbol) (lexeme_symbol hsymbol hrest)

theorem tokensOf_equal (rest : List UInt8) :
    tokensOf (0x3d :: 0x3d :: rest) = ⟨.equal, "=="⟩ :: tokensOf rest :=
  tokensOf_of_lexeme [0x3d] (by decide) (lexeme_equal rest)

theorem tokensOf_notEqual (rest : List UInt8) :
    tokensOf (0x21 :: 0x3d :: rest) = ⟨.notEqual, "!="⟩ :: tokensOf rest :=
  tokensOf_of_lexeme [0x3d] (by decide) (lexeme_notEqual rest)

end LetLang
