/-!
# `LetLang.Text.Utf8` — text as bytes, and bytes as text

Source text is scanned byte by byte. Bytes below `0x80` are ASCII characters; all others belong to
longer characters and mean nothing on their own.

## Contents
- `utf8`, `ofUtf8?`: the encoding of a text, and the text of a valid encoding.
- `asciiText`: the text of a run of ASCII bytes.
- `loneChar`: the character shown for a single byte.
-/

namespace LetLang.Text

/-- The UTF-8 encoding of `text`. -/
def utf8 (text : String) : List UInt8 :=
  text.toUTF8.data.toList

/-- The text whose UTF-8 encoding is `bytes`, if there is one. -/
def ofUtf8? (bytes : List UInt8) : Option String :=
  String.fromUTF8? ⟨bytes.toArray⟩

/-- The text of bytes that are each an ASCII character. -/
def asciiText (bytes : List UInt8) : String :=
  String.ofList (bytes.map Char.ofUInt8)

/-- The character shown for one byte taken alone: itself if it is ASCII, and the replacement
    character if it is a fragment of a longer one. -/
def loneChar (b : UInt8) : Char :=
  if b < 0x80 then Char.ofUInt8 b else '\ufffd'

end LetLang.Text
