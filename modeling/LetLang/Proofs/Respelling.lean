import LetLang.Proofs.Segmentation

/-!
# `LetLang.Proofs.Respelling` — sources for given tokens

Tokens are written out with a space between any two of them. A space ends every word and every number, and
is no second half of an operator, so the tokens are read back one by one. Hence every list of ASCII tokens
that a source can hold is the list of tokens of some source.

One token is not read back as itself. A byte that is no character is shown as the replacement character,
and the encoding of that has three bytes, each of which is no character again.

## Contents
- `spaced`: the texts of some tokens, with spaces between them.
- `Token.Spelled.tokensOf_text`: one ASCII token in front of what ends it.
- `Token.fragment`, `Token.reread`: what the text of a token is read as, with
  `Token.Spelled.tokensOf_reread`. `Token.Spelled.eq_fragment` says that all other tokens are ASCII.
- `tokensOf_spaced`, `tokens_spaced`: all of them, and all of them that are ASCII.
- `ne_fragment_of_isAscii`: an ASCII source holds no byte that is no character.
- `tokenize_spaced`: the tokens of a source, and any tokens of ASCII sources.
-/

namespace LetLang

open Text

/-- The texts of the tokens, with a space between any two. -/
def spaced (tokens : List Token) : String := " ".intercalate (tokens.map Token.text)

/-! ## One token -/

theorem isAscii_reserved {text : String} {kind : Kind} (h : (text, kind) ∈ Kind.reservedWords) :
    IsAscii text := by
  obtain ⟨hword, _⟩ := Kind.isWord_of_mem_reservedWords h
  intro c hc
  exact lt_of_isNameChar (hword.2 c hc)

theorem isAscii_name (kind : Kind) : IsAscii kind.name := by
  cases kind <;> decide

/-- A stray byte in front, which is a token by itself. -/
theorem tokensOf_stray {b : UInt8} (rest : List UInt8) (hblank : isBlank b = false)
    (hletter : isLetter b = false) (hdigit : isDigit b = false)
    (hsymbol : Kind.ofSymbol? (Char.ofUInt8 b) = none) :
    tokensOf (b :: rest) = ⟨.illegal, String.singleton (loneChar b)⟩ :: tokensOf rest :=
  tokensOf_of_lexeme [] hblank (lexeme_stray rest hletter hdigit hsymbol)

/-- The character of a stray byte has that byte for its code, if it is ASCII. -/
theorem utf8_loneChar {b : UInt8} (h : IsAscii (String.singleton (loneChar b))) :
    utf8 (String.singleton (loneChar b)) = [b] := by
  have hlt : (loneChar b).toNat < 0x80 := h _ (by simp)
  rw [utf8_of_isAscii h]
  revert hlt
  exact forall_byte (p := fun b => (loneChar b).toNat < 0x80 →
    (String.singleton (loneChar b)).toList.map Char.toUInt8 = [b]) (by decide +kernel) b

/-- **A token in front is read back**, where what follows carries on no word, no number and no
    operator. -/
theorem Token.Spelled.tokensOf_text {token : Token} {rest : List UInt8} (h : token.Spelled)
    (hascii : IsAscii token.text) (hclear : Clear rest) (hsign : rest.head? ≠ some 0x3d) :
    tokensOf (utf8 token.text ++ rest) = token :: tokensOf rest := by
  cases h with
  | name h => rw [tokensOf_isWord h.1 hclear, Kind.ofWord, h.2, Option.getD_none]
  | number h => exact tokensOf_isNumeral h hclear
  | reserved h =>
      obtain ⟨hword, hreserved⟩ := Kind.isWord_of_mem_reservedWords h
      rw [tokensOf_isWord hword hclear, Kind.ofWord, hreserved, Option.getD_some]
  | symbol h => exact tokensOf_name h fun _ => hsign
  | stray hblank hletter hdigit hsymbol =>
      rw [utf8_loneChar hascii]
      exact tokensOf_stray rest hblank hletter hdigit hsymbol

/-! ## What is no character -/

/-- The token for a byte that is no character by itself. -/
def Token.fragment : Token := ⟨.illegal, "\ufffd"⟩

/-- What the text of a token is read as. The three bytes of the replacement character are read one by one;
    every other text is read as the token that it is from. -/
def Token.reread (token : Token) : List Token :=
  if token = fragment then [fragment, fragment, fragment] else [token]

theorem Token.reread_of_ne {token : Token} (h : token ≠ fragment) : token.reread = [token] := if_neg h

/-- The replacement character is not ASCII. -/
theorem Token.reread_of_isAscii {token : Token} (h : IsAscii token.text) : token.reread = [token] := by
  apply reread_of_ne
  rintro rfl
  exact absurd (h '\ufffd' (by decide)) (by decide)

/-- Of the tokens that a source can hold only a fragment is not ASCII. -/
theorem Token.Spelled.eq_fragment {token : Token} (h : token.Spelled) (hascii : ¬IsAscii token.text) :
    token = fragment := by
  cases h with
  | name h => exact absurd (fun c hc => lt_of_isNameChar (h.1.2 c hc)) hascii
  | number h => exact absurd (fun c hc => lt_of_isDigit (h.2 c hc)) hascii
  | reserved h => exact absurd (isAscii_reserved h) hascii
  | symbol => exact absurd (isAscii_name _) hascii
  | @stray b =>
      have hlarge : ¬b < 0x80 := by
        intro hlt
        have hchar : (loneChar b).toNat < 0x80 := by
          rw [loneChar, if_pos hlt]
          exact toNat_ofUInt8_lt hlt
        exact hascii (by simpa [IsAscii] using hchar)
      rw [loneChar, if_neg hlarge]
      rfl

/-- **The text of a token is ASCII**, unless it stands for a stray byte. -/
theorem Token.Spelled.isAscii {token : Token} (h : token.Spelled) (hkind : token.kind ≠ .illegal) :
    IsAscii token.text := by
  by_cases hascii : IsAscii token.text
  · exact hascii
  · rw [h.eq_fragment hascii] at hkind
    exact absurd rfl hkind

theorem tokensOf_fragment {b : UInt8} (rest : List UInt8) (h : 0x80 ≤ b) :
    tokensOf (b :: rest) = .fragment :: tokensOf rest := by
  obtain ⟨hblank, hletter, hdigit, hsymbol⟩ := fragment_spec h
  rw [tokensOf_stray rest hblank hletter hdigit hsymbol, loneChar, if_neg (UInt8.not_lt.mpr h)]
  rfl

/-- The replacement character in front. -/
theorem tokensOf_replacement (rest : List UInt8) :
    tokensOf (utf8 Token.fragment.text ++ rest) = Token.fragment.reread ++ tokensOf rest := by
  have hbytes : utf8 Token.fragment.text = [0xef, 0xbf, 0xbd] := by decide +kernel
  rw [hbytes]
  show tokensOf (0xef :: 0xbf :: 0xbd :: rest) = _
  rw [tokensOf_fragment _ (by decide), tokensOf_fragment _ (by decide),
    tokensOf_fragment _ (by decide)]
  rfl

/-- **What any token in front is read as**, whether it is ASCII or not. -/
theorem Token.Spelled.tokensOf_reread {token : Token} {rest : List UInt8} (h : token.Spelled)
    (hclear : Clear rest) (hsign : rest.head? ≠ some 0x3d) :
    tokensOf (utf8 token.text ++ rest) = token.reread ++ tokensOf rest := by
  by_cases hascii : IsAscii token.text
  · rw [reread_of_isAscii hascii]
    exact h.tokensOf_text hascii hclear hsign
  · obtain rfl := h.eq_fragment hascii
    exact tokensOf_replacement rest

/-! ## All tokens -/

/-- **Tokens with spaces between them are read one by one**, if a source can hold them. -/
theorem tokensOf_spaced {tokens : List Token} (h : ∀ token ∈ tokens, token.Spelled) :
    tokensOf (utf8 (spaced tokens)) = tokens.flatMap Token.reread := by
  unfold spaced
  induction tokens with
  | nil => exact tokensOf_nil
  | cons token tokens ih =>
      obtain ⟨hspelled, hrest⟩ := List.forall_mem_cons.mp h
      have hmore := ih hrest
      cases tokens with
      | nil => simpa using hspelled.tokensOf_reread clear_nil (by simp)
      | cons next tokens =>
          have hspace (bs : List UInt8) :
              tokensOf (utf8 token.text ++ (utf8 " " ++ bs)) =
                token.reread ++ tokensOf (utf8 " " ++ bs) :=
            hspelled.tokensOf_reread (clear_cons rfl rfl) fun h => nomatch h
          rw [List.map_cons, List.map_cons, String.intercalate_cons_cons, ← List.map_cons,
            utf8_append, utf8_append, List.append_assoc, hspace, tokensOf_space, hmore]
          rfl

theorem flatMap_reread {tokens : List Token} (h : ∀ token ∈ tokens, token.reread = [token]) :
    tokens.flatMap Token.reread = tokens :=
  (congrArg List.flatten (List.map_congr_left h)).trans (List.flatMap_singleton' tokens)

/-- ASCII tokens are read back. -/
theorem tokens_spaced {tokens : List Token}
    (h : ∀ token ∈ tokens, token.Spelled ∧ IsAscii token.text) :
    (Cursor.ofString (spaced tokens)).tokens = tokens := by
  rw [Cursor.tokens_eq]
  show tokensOf (utf8 (spaced tokens)) = tokens
  rw [tokensOf_spaced fun token hmem => (h token hmem).1]
  exact flatMap_reread fun token hmem => Token.reread_of_isAscii (h token hmem).2

/-! ## Tokens of sources -/

theorem lt_of_isAscii {text : String} (h : IsAscii text) : ∀ b ∈ utf8 text, b < 0x80 := by
  intro b hb
  rw [utf8_of_isAscii h, List.mem_map] at hb
  obtain ⟨c, hc, rfl⟩ := hb
  exact forall_ascii (p := fun c => c.toUInt8 < 0x80) (by decide +kernel) (h c hc)

/-- **Of an ASCII source every byte is a character**, so that none of its tokens is a fragment. -/
theorem ne_fragment_of_isAscii {source : String} (h : IsAscii source) {token : Token}
    (hmem : token ∈ (Cursor.ofString source).tokens) : token ≠ .fragment := by
  obtain ⟨lexemes, hmunches⟩ := exists_munches (parted_nil (utf8 source))
  rw [Cursor.tokens_eq] at hmem
  have hmem' : token ∈ lexemes.map Lexeme.token := hmunches.tokensOf_eq ▸ hmem
  obtain ⟨found, hfound, rfl⟩ := List.mem_map.mp hmem'
  obtain ⟨front, rest, hmunch⟩ := hmunches.exists_munch_of_mem hfound
  have hascii : ∀ b ∈ found.bytes, b < 0x80 := by
    intro b hb
    have hall : b ∈ lexemes.flatMap Lexeme.bytes := List.mem_flatMap.mpr ⟨found, hfound, hb⟩
    rw [hmunches.flatMap_bytes] at hall
    exact lt_of_isAscii h b (List.mem_filter.mp hall).1
  intro heq
  rcases hmunch.utf8_text with htext | ⟨b, hb, rfl⟩
  · -- The text is the replacement character, and its bytes are those of the source.
    rw [heq] at htext
    exact absurd (hascii 0xef (htext ▸ by decide +kernel)) (by decide)
  · exact UInt8.not_lt.mpr hb (hascii b List.mem_cons_self)

/-- **The texts of tokens give the tokens again.** The texts of the tokens of any source, with single
    spaces between them, have the tokens of the source, but three fragments for each that is one. The
    texts of any tokens out of ASCII sources, whatever their order and their neighbours were, have exactly
    these tokens. -/
theorem tokenize_spaced :
    (∀ source : String, tokenize (spaced (Cursor.ofString source).tokens) =
      (Cursor.ofString source).tokens.flatMap Token.reread ++ [⟨.eof, ""⟩]) ∧
    ∀ tokens : List Token,
      (∀ token ∈ tokens, ∃ source, IsAscii source ∧ token ∈ (Cursor.ofString source).tokens) →
      tokenize (spaced tokens) = tokens ++ [⟨.eof, ""⟩] := by
  constructor
  · intro source
    rw [tokenize_eq, tokensOf_spaced (Cursor.tokens_spelled _)]
    rfl
  · intro tokens h
    have hspelled : ∀ token ∈ tokens, token.Spelled := by
      intro token hmem
      obtain ⟨source, _, htoken⟩ := h token hmem
      exact Cursor.tokens_spelled _ token htoken
    have hreread : ∀ token ∈ tokens, token.reread = [token] := by
      intro token hmem
      obtain ⟨source, hascii, htoken⟩ := h token hmem
      exact Token.reread_of_ne (ne_fragment_of_isAscii hascii htoken)
    rw [tokenize_eq, tokensOf_spaced hspelled, flatMap_reread hreread]
    rfl

/-- A word and the keyword that it begins with, signs that would run together, and a control character. -/
theorem tokenize_spaced_neighbours :
    IsAscii "lets let=\x00007==" ∧
      tokenize (spaced [⟨.letWord, "let"⟩, ⟨.ident, "lets"⟩, ⟨.illegal, "\x00"⟩, ⟨.equal, "=="⟩,
          ⟨.assign, "="⟩, ⟨.int, "007"⟩]) =
        [⟨.letWord, "let"⟩, ⟨.ident, "lets"⟩, ⟨.illegal, "\x00"⟩, ⟨.equal, "=="⟩, ⟨.assign, "="⟩,
          ⟨.int, "007"⟩, ⟨.eof, ""⟩] := by
  have hascii : IsAscii "lets let=\x00007==" := by decide +kernel
  refine ⟨hascii, tokenize_spaced.2 [⟨.letWord, "let"⟩, ⟨.ident, "lets"⟩, ⟨.illegal, "\x00"⟩,
    ⟨.equal, "=="⟩, ⟨.assign, "="⟩, ⟨.int, "007"⟩] fun token hmem => ⟨_, hascii, ?_⟩⟩
  revert token
  decide +kernel

/-- Each byte of a longer character is read back threefold. -/
example : tokenize (spaced (Cursor.ofString "é").tokens) = List.replicate 6 .fragment ++ [.eof] := by
  decide +kernel

end LetLang
