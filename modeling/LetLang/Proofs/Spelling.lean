import LetLang.Proofs.Ascii
import LetLang.Proofs.Numerals

/-!
# `LetLang.Proofs.Spelling` — the tokens that a source can hold

The kind of a token and its text are stored side by side, but the scanner fills them in together: every
kind but three has a single text, and the texts of identifiers, integers and stray bytes are of classes
of their own.

## Contents
- `IsWord`, `IsName`: words, and the words that are free to be names.
- `Kind.reservedWords`, `Kind.symbols`: the kinds that are spelled in one way.
- `Token.Spelled`: the tokens that a source can hold, with the text of each from its kind
  (`Token.Spelled.text_eq_word`, `Token.Spelled.text_eq_name`).
- `lexeme_spelled`: a lexeme is such a token.
-/

namespace LetLang

open Text

/-! ## Words -/

/-- A word of letters and underscores. -/
def IsWord (text : String) : Prop := text ≠ "" ∧ ∀ c ∈ text.toList, isNameChar c = true

/-- A word that is not reserved, and so can be the name of something. -/
def IsName (text : String) : Prop := IsWord text ∧ Kind.reserved? text = none

instance (text : String) : Decidable (IsWord text) :=
  decidable_of_iff (text ≠ "" ∧ text.toList.all isNameChar = true)
    (and_congr_right fun _ => List.all_eq_true)

instance (text : String) : Decidable (IsName text) := inferInstanceAs (Decidable (_ ∧ _))

namespace Kind

/-- The reserved words with their kinds. -/
def reservedWords : List (String × Kind) :=
  [("fn", fnWord), ("let", letWord), ("true", trueWord), ("false", falseWord), ("if", ifWord),
    ("else", elseWord), ("return", returnWord)]

/-- The kinds that are spelled by their name: operators and punctuation. -/
def symbols : List Kind :=
  [assign, plus, dash, not, slash, star, less, greater, equal, notEqual, comma, semicolon,
    openParen, closeParen, openCurly, closeCurly]

theorem mem_reservedWords {text : String} {kind : Kind} (h : reserved? text = some kind) :
    (text, kind) ∈ reservedWords := by
  unfold reserved? at h
  split at h <;> cases h <;> decide

theorem isWord_of_mem_reservedWords {text : String} {kind : Kind}
    (h : (text, kind) ∈ reservedWords) : IsWord text ∧ reserved? text = some kind := by
  cases kind <;> simp [reservedWords] at h <;> subst h <;> decide

theorem mem_symbols {c : Char} {kind : Kind} (h : ofSymbol? c = some kind) : kind ∈ symbols := by
  unfold ofSymbol? at h
  split at h <;> cases h <;> decide

/-- A kind is reserved one word at most. -/
theorem reservedWords_inj {text text' : String} {kind : Kind} (h : (text, kind) ∈ reservedWords)
    (h' : (text', kind) ∈ reservedWords) : text = text' := by
  cases kind <;> simp [reservedWords] at h h' <;> rw [h, h']

theorem not_mem_symbols {text : String} {kind : Kind} (h : (text, kind) ∈ reservedWords) :
    kind ∉ symbols := by
  cases kind <;> simp [reservedWords] at h <;> simp [symbols]

/-- What is reserved is no identifier, no integer and no end. -/
theorem ne_of_mem_reservedWords {text : String} {kind : Kind} (h : (text, kind) ∈ reservedWords) :
    kind ≠ ident ∧ kind ≠ int ∧ kind ≠ eof := by
  cases kind <;> simp [reservedWords] at h <;> simp

theorem ne_of_mem_symbols {kind : Kind} (h : kind ∈ symbols) :
    kind ≠ ident ∧ kind ≠ int ∧ kind ≠ eof := by
  cases kind <;> simp [symbols] at h <;> simp

end Kind

/-! ## Tokens -/

namespace Token

/-- The tokens that a source can hold. -/
inductive Spelled : Token → Prop where
  | name {text : String} (h : IsName text) : Spelled ⟨.ident, text⟩
  /-- A run of digits is an integer, of whatever length. -/
  | number {text : String} (h : IsNumeral text) : Spelled ⟨.int, text⟩
  | reserved {text : String} {kind : Kind} (h : (text, kind) ∈ Kind.reservedWords) :
      Spelled ⟨kind, text⟩
  | symbol {kind : Kind} (h : kind ∈ Kind.symbols) : Spelled ⟨kind, kind.name⟩
  /-- Any other byte is a token by itself. -/
  | stray {b : UInt8} (hblank : isBlank b = false) (hletter : isLetter b = false)
      (hdigit : isDigit b = false) (hsymbol : Kind.ofSymbol? (Char.ofUInt8 b) = none) :
      Spelled ⟨.illegal, String.singleton (loneChar b)⟩

namespace Spelled

variable {token : Token}

/-- The end of the input is not among them. -/
theorem kind_ne_eof (h : token.Spelled) : token.kind ≠ .eof := by
  cases h with
  | name | number | stray => exact Kind.noConfusion
  | reserved h => exact (Kind.ne_of_mem_reservedWords h).2.2
  | symbol h => exact (Kind.ne_of_mem_symbols h).2.2

/-- **An identifier is a word that is not reserved.** -/
theorem isName (h : token.Spelled) (hkind : token.kind = .ident) : IsName token.text := by
  cases h with
  | name h => exact h
  | number | stray => exact nomatch hkind
  | reserved h => exact absurd hkind (Kind.ne_of_mem_reservedWords h).1
  | symbol h => exact absurd hkind (Kind.ne_of_mem_symbols h).1

/-- **An integer is a run of digits.** -/
theorem isNumeral (h : token.Spelled) (hkind : token.kind = .int) : IsNumeral token.text := by
  cases h with
  | number h => exact h
  | name | stray => exact nomatch hkind
  | reserved h => exact absurd hkind (Kind.ne_of_mem_reservedWords h).2.1
  | symbol h => exact absurd hkind (Kind.ne_of_mem_symbols h).2.1

/-- **A token of a reserved kind is the word that is reserved for it.** -/
theorem text_eq_word (h : token.Spelled) {text : String}
    (hmem : (text, token.kind) ∈ Kind.reservedWords) : token.text = text := by
  cases h with
  | name | number | stray => simp [Kind.reservedWords] at hmem
  | reserved h => exact Kind.reservedWords_inj h hmem
  | symbol h => exact absurd h (Kind.not_mem_symbols hmem)

/-- **An operator or a punctuation mark is spelled by its name.** -/
theorem text_eq_name (h : token.Spelled) (hmem : token.kind ∈ Kind.symbols) :
    token.text = token.kind.name := by
  cases h with
  | name | number | stray => simp [Kind.symbols] at hmem
  | reserved h => exact absurd hmem (Kind.not_mem_symbols h)
  | symbol => rfl

end Spelled

/-- A word is of the kind that it is reserved for, and an identifier if it is not reserved. -/
theorem spelled_ofWord {text : String} (h : IsWord text) : Spelled ⟨Kind.ofWord text, text⟩ := by
  unfold Kind.ofWord
  cases hkind : Kind.reserved? text with
  | none => exact .name ⟨h, hkind⟩
  | some kind => exact .reserved (Kind.mem_reservedWords hkind)

end Token

/-! ## Lexemes -/

/-- The text of a run of bytes that are each a character of a class. -/
theorem asciiText_run {p : Char → Bool} {run : List UInt8} (hne : run ≠ [])
    (h : ∀ b ∈ run, p (Char.ofUInt8 b) = true) :
    asciiText run ≠ "" ∧ ∀ c ∈ (asciiText run).toList, p c = true := by
  constructor
  · intro hempty
    have hnil : run.map Char.ofUInt8 = [] := by rw [← toList_asciiText, hempty]; rfl
    exact hne (List.map_eq_nil_iff.mp hnil)
  · intro c hc
    rw [toList_asciiText, List.mem_map] at hc
    obtain ⟨b, hb, rfl⟩ := hc
    exact h b hb

/-- A byte of a class and the run of the class behind it. -/
theorem mem_run {q : UInt8 → Bool} {b : UInt8} {bs : List UInt8} (hb : q b = true) :
    ∀ a ∈ b :: bs.takeWhile q, q a = true := by
  intro a ha
  rcases List.mem_cons.mp ha with rfl | ha
  · exact hb
  · exact List.all_eq_true.mp List.all_takeWhile a ha

/-- **A lexeme is a token that a source can hold.** -/
theorem lexeme_spelled {b : UInt8} (bs : List UInt8) (hblank : isBlank b = false) :
    (lexeme b bs).token.Spelled := by
  unfold lexeme
  split
  · exact .symbol (show Kind.equal ∈ Kind.symbols by simp [Kind.symbols])
  split
  · exact .symbol (show Kind.notEqual ∈ Kind.symbols by simp [Kind.symbols])
  split
  · next kind hsymbol => exact .symbol (Kind.mem_symbols hsymbol)
  next hsymbol =>
  split
  · next hletter =>
    exact Token.spelled_ofWord (asciiText_run (p := isNameChar) (List.cons_ne_nil _ _)
      fun a ha => (isLetter_iff a).symm.trans (mem_run hletter a ha))
  split
  · next hdigit =>
    exact .number (asciiText_run (p := Char.isDigit) (List.cons_ne_nil _ _)
      fun a ha => (isDigit_iff a).symm.trans (mem_run hdigit a ha))
  · next hletter hdigit =>
    exact .stray hblank (Bool.eq_false_iff.mpr hletter) (Bool.eq_false_iff.mpr hdigit) hsymbol

end LetLang
