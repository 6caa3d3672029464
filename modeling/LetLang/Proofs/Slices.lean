import LetLang.Proofs.Positions

/-!
# `LetLang.Proofs.Slices` — words and numbers are slices of the source

A cursor may stand anywhere, also in the middle of a character. But a word or a number that begins at the
cursor consists of ASCII characters, and no byte of a longer character is an ASCII byte. So the run of bytes
from its beginning to its end is text by itself, and a run that is text by itself begins and ends between
two characters. The text of the token is the slice of the source in between.

## Contents
- `slice?`: the part of a text from one byte to another, if both are between characters.
- `slice?_of_prefix`: ASCII bytes ahead are a slice.
- `Cursor.skipRun`: over the bytes of a class, with `Cursor.next_of_run`.
- `Cursor.run_sliced`: the scanner takes a slice, in whatever place it stands.
-/

namespace LetLang

open Text

namespace Text

/-! ## Slices -/

/-- The part of a text from the byte `start` up to the byte `stop`. There is none if these are out of order,
    or past the end, or not between two characters. -/
def slice? (text : String) (start stop : Nat) : Option String :=
  if h : start ≤ stop ∧ String.Pos.Raw.IsValid text ⟨start⟩ ∧ String.Pos.Raw.IsValid text ⟨stop⟩ then
    some (String.extract (s := text) ⟨⟨start⟩, h.2.1⟩ ⟨⟨stop⟩, h.2.2⟩)
  else none

variable {text : String} {run : List UInt8} {start : Nat}

theorem length_utf8 (text : String) : (utf8 text).length = text.utf8ByteSize := rfl

/-- The bytes from one place to another, as the text has them. -/
theorem utf8_extract (text : String) (start stop : Nat) :
    (text.toByteArray.extract start stop).data.toList = ((utf8 text).drop start).take (stop - start) := by
  rw [ByteArray.data_extract, Array.toList_extract]
  rfl

/-- **A run of ASCII bytes begins and ends between characters**, and its text is the slice of them. -/
theorem slice?_of_prefix (hne : run ≠ []) (hascii : ∀ b ∈ run, b < 0x80)
    (h : run <+: (utf8 text).drop start) :
    String.Pos.Raw.IsValid text ⟨start⟩ ∧ String.Pos.Raw.IsValid text ⟨start + run.length⟩ ∧
      slice? text start (start + run.length) = some (asciiText run) := by
  have hpos := List.length_pos_iff.mpr hne
  have hle : start + run.length ≤ text.utf8ByteSize := by
    have hlength := h.length_le
    rw [List.length_drop, length_utf8] at hlength
    omega
  have hbytes : text.toByteArray.extract start (start + run.length) = (asciiText run).toByteArray := by
    rw [ByteArray.ext_iff, ← Array.toList_inj, utf8_extract, Nat.add_sub_cancel_left,
      ← List.prefix_iff_eq_take.mp h]
    exact (utf8_asciiText hascii).symm
  -- The bytes of the run are text, so they cannot begin or end within a character.
  have hvalid : (text.toByteArray.extract start (start + run.length)).IsValidUTF8 := by
    rw [hbytes]
    exact (asciiText run).isValidUTF8
  have hbounds := (String.Pos.Raw.isValidUTF8_extract_iff ⟨start⟩ ⟨start + run.length⟩
    (Nat.le_add_right _ _) hle).mp hvalid
  rcases hbounds with hsame | ⟨hstart, hstop⟩
  · have heq : start = start + run.length := congrArg String.Pos.Raw.byteIdx hsame
    omega
  · refine ⟨hstart, hstop, ?_⟩
    rw [slice?, dif_pos ⟨Nat.le_add_right _ _, hstart, hstop⟩]
    exact congrArg some (String.toByteArray_inj.mp (String.toByteArray_extract.trans hbytes))

end Text

/-! ## The scanner -/

section

variable {p : UInt8 → Bool} {b : UInt8}

theorem eq_of_mem_classes (hp : p ∈ [isLetter, isDigit]) : p = isLetter ∨ p = isDigit := by
  simpa using hp

/-- Words and numbers are made of ASCII bytes. -/
theorem lt_of_mem_classes (hp : p ∈ [isLetter, isDigit]) (hb : p b = true) : b < 0x80 := by
  rcases eq_of_mem_classes hp with rfl | rfl
  · exact lt_of_class (.inl hb)
  · exact lt_of_class (.inr (.inl hb))

/-- A lexeme that begins with a byte of one of the two classes is the run of the class. -/
theorem lexeme_run (hp : p ∈ [isLetter, isDigit]) (hb : p b = true) (bs : List UInt8) :
    (lexeme b bs).token.text = asciiText ((b :: bs).takeWhile p) ∧
      (lexeme b bs).bytes = (b :: bs).takeWhile p := by
  rw [List.takeWhile_cons_of_pos hb]
  rcases eq_of_mem_classes hp with rfl | rfl
  · obtain ⟨_, hequal, hnot, hsymbol⟩ := isLetter_spec hb
    simp [lexeme, hequal, hnot, hsymbol, hb]
  · obtain ⟨_, hequal, hnot, hsymbol, hletter⟩ := isDigit_spec hb
    simp [lexeme, hequal, hnot, hsymbol, hletter, hb]

end

namespace Cursor

/-- The cursor behind the bytes of a class, as many as there are ahead. -/
def skipRun (p : UInt8 → Bool) (c : Cursor) : Cursor := c.drop (c.rest.takeWhile p).length

variable {p : UInt8 → Bool}

/-- **A word or a number is a run of its class**, and the cursor is left behind it. -/
theorem next_of_run {c : Cursor} (hp : p ∈ [isLetter, isDigit])
    (hrun : c.skipBlanks.rest.head?.any p = true) :
    c.next.token.text = asciiText (c.skipBlanks.rest.takeWhile p) ∧
      c.next.cursor = c.skipBlanks.skipRun p ∧ c.skipBlanks.rest.takeWhile p ≠ [] := by
  cases hrest : c.skipBlanks.rest with
  | nil =>
      rw [hrest] at hrun
      exact absurd hrun Bool.false_ne_true
  | cons b bs =>
      rw [hrest] at hrun
      have hb : p b = true := hrun
      obtain ⟨htext, hbytes⟩ := lexeme_run hp hb bs
      have hahead : c.rest.dropWhile isBlank = b :: bs := c.rest_skipBlanks.symm.trans hrest
      refine ⟨?_, ?_, ?_⟩
      · rw [(next_of_cons hahead).1, htext]
      · rw [next_cursor_of_cons hahead, hbytes, skipRun, hrest]
      · rw [List.takeWhile_cons_of_pos hb]
        exact List.cons_ne_nil _ _

/-- **The scanner takes slices of the source**, in whatever place it stands. Where a word or a number begins
    behind the blanks, the run of its class ends further on and not past the source, both ends are between
    characters, and so the slice between them can be taken. It is the text of the token. -/
theorem run_sliced (source : String) (calls : List Call) (hp : p ∈ [isLetter, isDigit])
    (hrun : ((ofString source).after calls).skipBlanks.rest.head?.any p = true) :
    let c := (ofString source).after calls
    let start := c.skipBlanks
    let stop := start.skipRun p
    c.next.cursor = stop ∧ start.offset < stop.offset ∧ stop.offset ≤ (utf8 source).length ∧
      String.Pos.Raw.IsValid source ⟨start.offset⟩ ∧ String.Pos.Raw.IsValid source ⟨stop.offset⟩ ∧
      slice? source start.offset stop.offset = some c.next.token.text := by
  intro c start stop
  have hon : start.On (utf8 source) := ((on_ofString source).after calls).drop _
  obtain ⟨htext, hstop, hne⟩ := next_of_run hp hrun
  have hprefix : start.rest.takeWhile p <+: (utf8 source).drop start.offset := by
    rw [← hon]
    exact List.takeWhile_prefix p
  have hascii : ∀ b ∈ start.rest.takeWhile p, b < 0x80 := fun b hb =>
    lt_of_mem_classes hp (List.all_eq_true.mp List.all_takeWhile b hb)
  obtain ⟨hvalid, hvalid', hslice⟩ := slice?_of_prefix hne hascii hprefix
  have hpos : 0 < (start.rest.takeWhile p).length := List.length_pos_iff.mpr hne
  refine ⟨hstop, Nat.lt_add_of_pos_right hpos, hvalid'.le_utf8ByteSize, hvalid, hvalid', ?_⟩
  rw [htext]
  exact hslice

/-- A word behind a character of two bytes, in the middle of which the cursor has been. -/
theorem run_sliced_character :
    let c := (ofString "é let_x1").after [.drop 1, .next]
    let start := c.skipBlanks
    let stop := start.skipRun isLetter
    isLetter ∈ [isLetter, isDigit] ∧ start.rest.head?.any isLetter = true ∧
      start.offset = 3 ∧ stop.offset = 8 ∧ c.next.token.text = "let_x" ∧
      c.next.cursor = stop ∧ start.offset < stop.offset ∧
      stop.offset ≤ (utf8 "é let_x1").length ∧
      String.Pos.Raw.IsValid "é let_x1" ⟨start.offset⟩ ∧
      String.Pos.Raw.IsValid "é let_x1" ⟨stop.offset⟩ ∧
      slice? "é let_x1" start.offset stop.offset = some c.next.token.text := by
  intro c start stop
  have hrun : start.rest.head?.any isLetter = true := by decide +kernel
  exact ⟨List.mem_cons_self, hrun, by decide +kernel, by decide +kernel, by decide +kernel,
    run_sliced _ [.drop 1, .next] List.mem_cons_self hrun⟩

end Cursor

end LetLang
