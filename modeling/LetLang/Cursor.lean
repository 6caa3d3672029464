import LetLang.Text.Utf8
import LetLang.Token

/-!
# `LetLang.Cursor` — reading tokens off the bytes of a source

A cursor stands somewhere in a source text and knows the bytes that lie ahead. The token at the cursor
is found in two steps: blanks are skipped, then the longest lexeme at the front is taken. Any byte that
starts no lexeme is a token by itself, so reading always goes on to the end of the source.

## Contents
- `isBlank`, `isLetter`, `isDigit`: the classes of bytes.
- `Lexeme`, `lexeme`: the lexeme at the front of some bytes, with the bytes that it takes.
- `Cursor`: its observers (`byte`, `peekByte`, `atEnd`), `Cursor.drop` and `Cursor.next`, whose answer
  is a `Scan`. `Cursor.weight_next` says that a token which is not the end takes at least one byte.
- `Cursor.next?`, `Cursor.take`, `Cursor.tokens`: tokens before the end, one, some and all of them.
- `tokenize`: all tokens of a text, with the end.
-/

namespace LetLang

open Text

/-! ## Classes of bytes -/

/-- Space, tab, line feed and carriage return separate tokens. -/
def isBlank (b : UInt8) : Bool :=
  b == 0x20 || b == 0x09 || b == 0x0a || b == 0x0d

/-- Words are made of ASCII letters and underscores. -/
def isLetter (b : UInt8) : Bool :=
  (0x41 ≤ b && b ≤ 0x5a) || (0x61 ≤ b && b ≤ 0x7a) || b == 0x5f

/-- Numbers are made of ASCII digits. -/
def isDigit (b : UInt8) : Bool :=
  0x30 ≤ b && b ≤ 0x39

/-! ## Lexemes -/

/-- A token and the bytes that it was read from. -/
structure Lexeme where
  token : Token
  bytes : List UInt8
  deriving DecidableEq, Repr

/-- The lexeme at the front of the bytes `b :: bs`, where `b` is no blank. The two operators of two
    bytes come first, then those of one; words and numbers run as far as their class does; any other
    byte is illegal and stands alone. -/
def lexeme (b : UInt8) (bs : List UInt8) : Lexeme :=
  if Char.ofUInt8 b = '=' ∧ bs.head? = some 0x3d then ⟨⟨.equal, "=="⟩, [b, 0x3d]⟩
  else if Char.ofUInt8 b = '!' ∧ bs.head? = some 0x3d then ⟨⟨.notEqual, "!="⟩, [b, 0x3d]⟩
  else match Kind.ofSymbol? (Char.ofUInt8 b) with
    | some kind => ⟨⟨kind, kind.name⟩, [b]⟩
    | none =>
      if isLetter b then
        let run := b :: bs.takeWhile isLetter
        ⟨⟨Kind.ofWord (asciiText run), asciiText run⟩, run⟩
      else if isDigit b then
        let run := b :: bs.takeWhile isDigit
        ⟨⟨.int, asciiText run⟩, run⟩
      else ⟨⟨.illegal, String.singleton (loneChar b)⟩, [b]⟩

/-- Every lexeme takes at least the first byte. -/
theorem lexeme_bytes_ne_nil (b : UInt8) (bs : List UInt8) : (lexeme b bs).bytes ≠ [] := by
  unfold lexeme
  repeat' split
  all_goals simp

/-! ## Cursors -/

/-- A place in a source: the bytes that lie ahead, and how many lie behind. -/
structure Cursor where
  rest : List UInt8
  offset : Nat
  deriving DecidableEq, Repr

/-- What reading one token gives: the token, the cursor behind it, and the byte refused with its
    offset when the token is illegal. -/
structure Scan where
  token : Token
  cursor : Cursor
  refused : Option (UInt8 × Nat)
  deriving DecidableEq, Repr

/-- What a token adds to the work ahead: nothing if it is the end of the input. -/
def Token.weight (token : Token) : Nat :=
  if token.kind = .eof then 0 else 1

namespace Cursor

/-- The cursor at the start of a text. -/
def ofString (source : String) : Cursor := ⟨utf8 source, 0⟩

/-- Moves `n` bytes ahead, also past the end. -/
def drop (c : Cursor) (n : Nat) : Cursor := ⟨c.rest.drop n, c.offset + n⟩

/-- The byte at the cursor, `0` at the end. -/
def byte (c : Cursor) : UInt8 := c.rest.head?.getD 0

/-- The byte after the one at the cursor, `0` if there is none. -/
def peekByte (c : Cursor) : UInt8 := c.rest.tail.head?.getD 0

/-- Are there no bytes ahead? -/
def atEnd (c : Cursor) : Bool := c.rest.isEmpty

/-- Moves over the blanks at the cursor. -/
def skipBlanks (c : Cursor) : Cursor := c.drop (c.rest.takeWhile isBlank).length

/-- Reads the next token. At the end of the source it is the end token, time and again. -/
def next (c : Cursor) : Scan :=
  let start := c.skipBlanks
  match start.rest with
  | [] => ⟨.eof, start, none⟩
  | b :: bs =>
    let found := lexeme b bs
    ⟨found.token, start.drop found.bytes.length,
      if found.token.kind = .illegal then some (b, start.offset) else none⟩

@[simp] theorem length_rest_drop (c : Cursor) (n : Nat) :
    (c.drop n).rest.length = c.rest.length - n := by
  simp [drop]

/-- A token that is not the end takes at least one of the bytes ahead. -/
theorem weight_next (c : Cursor) :
    c.next.token.weight + c.next.cursor.rest.length ≤ c.rest.length := by
  have hskip : c.skipBlanks.rest.length ≤ c.rest.length := by
    rw [skipBlanks, length_rest_drop]
    omega
  unfold next
  dsimp only
  split
  · simpa [Token.weight, Token.eof] using hskip
  · next b bs hrest =>
    have hpos : 0 < (lexeme b bs).bytes.length :=
      List.length_pos_iff.mpr (lexeme_bytes_ne_nil b bs)
    have hlen : c.skipBlanks.rest.length = bs.length + 1 := by rw [hrest, List.length_cons]
    have hone : (lexeme b bs).token.weight ≤ 1 := by
      unfold Token.weight
      split <;> omega
    simp only [length_rest_drop]
    omega

/-! ## Tokens before the end -/

/-- The next token and the cursor behind it, unless the token is the end. The cursor moves over blanks
    in either case. -/
def next? (c : Cursor) : Option Token × Cursor :=
  let scan := c.next
  (if scan.token.kind = .eof then none else some scan.token, scan.cursor)

/-- At most `n` tokens before the end, with the cursor behind them. Nothing is read after the `n`-th. -/
def take : Nat → Cursor → List Token × Cursor
  | 0, c => ([], c)
  | n + 1, c =>
    match c.next? with
    | (none, c) => ([], c)
    | (some token, c) =>
      let more := take n c
      (token :: more.1, more.2)

/-- All tokens ahead of the cursor, the end apart. -/
def tokens (c : Cursor) : List Token :=
  let scan := c.next
  if scan.token.kind = .eof then [] else scan.token :: tokens scan.cursor
termination_by c.rest.length
decreasing_by
  next h =>
    have hweight := c.weight_next
    rw [Token.weight, if_neg h] at hweight
    omega

end Cursor

/-- All tokens of a text, the end token last. -/
def tokenize (source : String) : List Token :=
  (Cursor.ofString source).tokens ++ [.eof]

end LetLang
