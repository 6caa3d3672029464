import LetLang.Proofs.Rendering

/-!
# `LetLang.Proofs.Segmentation` — a source is lexemes with blanks between them

The scanner loses no byte of a source. The bytes are blanks and lexemes in turn, and each lexeme is as
long as it can be: a run of letters or digits has no byte of its class on either side, and `=` or `!` is
read together with a `=` behind it. A source can be cut like that in one way only, and its tokens are
those of the lexemes.

What a lexeme is does not mention the scanner here. The scanner's lexeme is the only one that fits
(`Munch.lexeme_eq`), and one always fits (`exists_munch`).

## Contents
- `Kind.marks`: the characters that are tokens by themselves.
- `Munch`: a lexeme, with the bytes in front of it and behind it.
- `Munches`: bytes cut into blanks and lexemes, with `exists_munches` and `Munches.unique`.
- `tokenize_munches`: the tokens of a text are those of its lexemes.
-/

namespace LetLang

open Text

/-! ## Characters and bytes -/

namespace Kind

/-- The characters that are tokens by themselves, with their kinds. -/
def marks : List (Char × Kind) :=
  [('=', assign), ('!', not), ('+', plus), ('-', dash), ('/', slash), ('*', star), ('<', less),
    ('>', greater), (',', comma), (';', semicolon), ('(', openParen), (')', closeParen),
    ('\x7b', openCurly), ('\x7d', closeCurly)]

theorem mem_marks_iff {c : Char} {kind : Kind} : (c, kind) ∈ marks ↔ ofSymbol? c = some kind := by
  constructor
  · intro h
    cases kind <;> simp [marks] at h <;> subst h <;> rfl
  · intro h
    unfold ofSymbol? at h
    split at h <;> cases h <;> decide

/-- A mark is spelled by the name of its kind, and is neither blank nor part of a run. -/
theorem marks_spec {c : Char} {kind : Kind} (h : (c, kind) ∈ marks) :
    kind.name = String.singleton c ∧ c.toNat < 0x80 ∧ isBlank c.toUInt8 = false ∧
      isLetter c.toUInt8 = false ∧ isDigit c.toUInt8 = false := by
  cases kind <;> simp [marks] at h <;> subst h <;> decide

end Kind

/-- Letters, digits and blanks are ASCII. -/
theorem lt_of_class {b : UInt8} (h : isLetter b = true ∨ isDigit b = true ∨ isBlank b = true) :
    b < 0x80 :=
  forall_byte (p := fun b => isLetter b = true ∨ isDigit b = true ∨ isBlank b = true → b < 0x80)
    (by decide +kernel) b h

/-! ## One lexeme -/

/-- No byte of the class stands right in front or right behind. -/
structure Alone (p : UInt8 → Bool) (before rest : List UInt8) : Prop where
  front : ∀ b ∈ before.getLast?, p b = false
  behind : ∀ b ∈ rest.head?, p b = false

/-- `Munch before found rest`: between the bytes `before` and `rest` stands the lexeme `found`, as long as
    it can be. -/
inductive Munch (before : List UInt8) : Lexeme → List UInt8 → Prop where
  | reserved {text : String} {kind : Kind} {rest : List UInt8}
      (h : (text, kind) ∈ Kind.reservedWords) (halone : Alone isLetter before rest) :
      Munch before ⟨⟨kind, text⟩, utf8 text⟩ rest
  | name {text : String} {rest : List UInt8} (h : IsWord text)
      (hfree : ∀ kind, (text, kind) ∉ Kind.reservedWords) (halone : Alone isLetter before rest) :
      Munch before ⟨⟨.ident, text⟩, utf8 text⟩ rest
  | number {text : String} {rest : List UInt8} (h : IsNumeral text)
      (halone : Alone isDigit before rest) : Munch before ⟨⟨.int, text⟩, utf8 text⟩ rest
  | equal {rest : List UInt8} : Munch before ⟨⟨.equal, "=="⟩, utf8 "=="⟩ rest
  | notEqual {rest : List UInt8} : Munch before ⟨⟨.notEqual, "!="⟩, utf8 "!="⟩ rest
  /-- The two marks that begin a longer operator stand alone only where no `=` follows. -/
  | mark {c : Char} {kind : Kind} {rest : List UInt8} (h : (c, kind) ∈ Kind.marks)
      (hsign : c = '=' ∨ c = '!' → rest.head? ≠ some 0x3d) :
      Munch before ⟨⟨kind, String.singleton c⟩, utf8 (String.singleton c)⟩ rest
  | stray {b : UInt8} {rest : List UInt8} (hascii : b < 0x80) (hblank : isBlank b = false)
      (hletter : isLetter b = false) (hdigit : isDigit b = false)
      (hmark : ∀ kind, (Char.ofUInt8 b, kind) ∉ Kind.marks) :
      Munch before ⟨⟨.illegal, String.singleton (Char.ofUInt8 b)⟩, [b]⟩ rest
  /-- A byte that is no character by itself. -/
  | fragment {b : UInt8} {rest : List UInt8} (h : 0x80 ≤ b) :
      Munch before ⟨⟨.illegal, "\ufffd"⟩, [b]⟩ rest

/-- What the classes of bytes have to do with the place where a lexeme ends: behind a letter of a lexeme
    no letter follows it, and behind a digit no digit. -/
structure Ending (a : UInt8) (rest : List UInt8) : Prop where
  blank : isBlank a = false
  letter : isLetter a = true → ∀ b ∈ rest.head?, isLetter b = false
  digit : isDigit a = true → ∀ b ∈ rest.head?, isDigit b = false

/-- A byte of no class may have anything behind it. -/
theorem ending_of_neither {a : UInt8} {rest : List UInt8} (hblank : isBlank a = false)
    (hletter : isLetter a = false) (hdigit : isDigit a = false) : Ending a rest := by
  refine ⟨hblank, ?_, ?_⟩
  · intro h
    rw [hletter] at h
    exact nomatch h
  · intro h
    rw [hdigit] at h
    exact nomatch h

theorem not_isDigit_of_isLetter {b : UInt8} (h : isLetter b = true) : isDigit b = false := by
  cases hdigit : isDigit b with
  | false => rfl
  | true => rw [(isDigit_spec hdigit).2.2.2.2] at h; exact nomatch h

/-- A byte above ASCII is of no class and no mark. -/
theorem fragment_spec {b : UInt8} (h : 0x80 ≤ b) :
    isBlank b = false ∧ isLetter b = false ∧ isDigit b = false ∧
      Kind.ofSymbol? (Char.ofUInt8 b) = none :=
  forall_byte (p := fun b => 0x80 ≤ b → isBlank b = false ∧ isLetter b = false ∧
    isDigit b = false ∧ Kind.ofSymbol? (Char.ofUInt8 b) = none) (by decide +kernel) b h

theorem ending_of_isWord {text : String} {before rest : List UInt8} (h : IsWord text)
    (halone : Alone isLetter before rest) : ∀ a ∈ utf8 text, Ending a rest := by
  intro a ha
  have hletter := isLetter_utf8 h a ha
  refine ⟨(isLetter_spec hletter).1, fun _ => halone.behind, fun hdigit => ?_⟩
  rw [not_isDigit_of_isLetter hletter] at hdigit
  exact nomatch hdigit

namespace Munch

variable {before rest : List UInt8} {found : Lexeme}

theorem bytes_ne_nil (h : Munch before found rest) : found.bytes ≠ [] := by
  cases h with
  | reserved h => exact utf8_ne_nil (Kind.isWord_of_mem_reservedWords h).1.1
  | name h => exact utf8_ne_nil h.1
  | number h => exact utf8_ne_nil h.1
  | equal | notEqual => decide
  | mark h =>
      rw [utf8_singleton (Kind.marks_spec h).2.1]
      exact List.cons_ne_nil _ _
  | stray | fragment => exact List.cons_ne_nil _ _

/-- **A lexeme holds no blank, and no run of it goes on behind it.** -/
theorem ending (h : Munch before found rest) : ∀ a ∈ found.bytes, Ending a rest := by
  cases h with
  | reserved h halone => exact ending_of_isWord (Kind.isWord_of_mem_reservedWords h).1 halone
  | name h _ halone => exact ending_of_isWord h halone
  | number h halone =>
      intro a ha
      obtain ⟨hblank, _, _, _, hletter⟩ := isDigit_spec (isDigit_utf8 h a ha)
      refine ⟨hblank, fun hletter' => ?_, fun _ => halone.behind⟩
      rw [hletter] at hletter'
      exact nomatch hletter'
  | equal | notEqual =>
      intro a ha
      have hneither : isBlank a = false ∧ isLetter a = false ∧ isDigit a = false := by
        revert a
        decide +kernel
      exact ending_of_neither hneither.1 hneither.2.1 hneither.2.2
  | mark h =>
      obtain ⟨_, hascii, hblank, hletter, hdigit⟩ := Kind.marks_spec h
      intro a ha
      simp only [utf8_singleton hascii, List.mem_singleton] at ha
      rw [ha]
      exact ending_of_neither hblank hletter hdigit
  | stray _ hblank hletter hdigit =>
      intro a ha
      rw [List.mem_singleton.mp ha]
      exact ending_of_neither hblank hletter hdigit
  | fragment h =>
      intro a ha
      obtain ⟨hblank, hletter, hdigit, _⟩ := fragment_spec h
      rw [List.mem_singleton.mp ha]
      exact ending_of_neither hblank hletter hdigit

theorem exists_first (h : Munch before found rest) :
    ∃ b bs, found.bytes = b :: bs ∧ isBlank b = false := by
  obtain ⟨b, bs, hbytes⟩ := List.exists_cons_of_ne_nil h.bytes_ne_nil
  exact ⟨b, bs, hbytes, (h.ending b (by rw [hbytes]; exact List.mem_cons_self)).blank⟩

/-- **The bytes of a token are its text**, unless they are a fragment of a character. -/
theorem utf8_text (h : Munch before found rest) :
    utf8 found.token.text = found.bytes ∨
      ∃ b, 0x80 ≤ b ∧ found = ⟨⟨.illegal, "\ufffd"⟩, [b]⟩ := by
  cases h with
  | reserved | name | number | equal | notEqual | mark => exact .inl rfl
  | @stray b _ hascii =>
      refine .inl ((utf8_singleton (toNat_ofUInt8_lt hascii)).trans ?_)
      rw [toUInt8_ofUInt8]
  | fragment h => exact .inr ⟨_, h, rfl⟩

end Munch

/-! ## The scanner's lexeme -/

/-- A word at the front, where it ends, is the lexeme there. -/
theorem lexeme_isWord {text : String} {b : UInt8} {bs rest : List UInt8} (h : IsWord text)
    (hbytes : utf8 text = b :: bs) (hrest : ∀ a ∈ rest.head?, isLetter a = false) :
    lexeme b (bs ++ rest) = ⟨⟨Kind.ofWord text, text⟩, utf8 text⟩ := by
  have hletters := isLetter_utf8 h
  have htext : asciiText (utf8 text) = text := asciiText_utf8 fun c hc => lt_of_isNameChar (h.2 c hc)
  rw [hbytes] at hletters htext ⊢
  rw [lexeme_word hletters hrest, htext]

theorem Kind.ofWord_of_mem {text : String} {kind : Kind} (h : (text, kind) ∈ Kind.reservedWords) :
    Kind.ofWord text = kind := by
  rw [Kind.ofWord, (Kind.isWord_of_mem_reservedWords h).2, Option.getD_some]

theorem Kind.ofWord_of_free {text : String} (h : ∀ kind, (text, kind) ∉ Kind.reservedWords) :
    Kind.ofWord text = .ident := by
  rw [Kind.ofWord]
  cases hkind : Kind.reserved? text with
  | none => rfl
  | some kind => exact absurd (Kind.mem_reservedWords hkind) (h kind)

/-- **The scanner's lexeme is the only one that fits.** -/
theorem Munch.lexeme_eq {before rest : List UInt8} {found : Lexeme} {b : UInt8} {bs : List UInt8}
    (h : Munch before found rest) (hbytes : found.bytes = b :: bs) :
    lexeme b (bs ++ rest) = found := by
  cases h with
  | reserved h halone =>
      have hword := (Kind.isWord_of_mem_reservedWords h).1
      rw [lexeme_isWord hword hbytes halone.behind, Kind.ofWord_of_mem h]
  | name h hfree halone => rw [lexeme_isWord h hbytes halone.behind, Kind.ofWord_of_free hfree]
  | @number text _ h halone =>
      have hdigits := isDigit_utf8 h
      have htext : asciiText (utf8 text) = text := asciiText_utf8 fun c hc => lt_of_isDigit (h.2 c hc)
      dsimp only at hbytes
      rw [hbytes] at hdigits htext ⊢
      rw [lexeme_number hdigits halone.behind, htext]
  | equal =>
      obtain ⟨rfl, rfl⟩ := List.cons.inj (show [0x3d, 0x3d] = b :: bs from hbytes)
      exact lexeme_equal rest
  | notEqual =>
      obtain ⟨rfl, rfl⟩ := List.cons.inj (show [0x21, 0x3d] = b :: bs from hbytes)
      exact lexeme_notEqual rest
  | mark h hsign =>
      obtain ⟨hname, hascii, _⟩ := Kind.marks_spec h
      rw [utf8_singleton hascii] at hbytes ⊢
      obtain ⟨rfl, rfl⟩ := List.cons.inj hbytes
      have hsymbol := Kind.mem_marks_iff.mp h
      rw [← ofUInt8_toUInt8 hascii] at hsymbol hsign
      rw [List.nil_append, lexeme_symbol hsymbol hsign, hname]
  | @stray a _ hascii _ hletter hdigit hmark =>
      obtain ⟨rfl, rfl⟩ := List.cons.inj hbytes
      have hsymbol : Kind.ofSymbol? (Char.ofUInt8 a) = none :=
        Option.eq_none_iff_forall_ne_some.mpr fun kind hkind =>
          hmark kind (Kind.mem_marks_iff.mpr hkind)
      rw [List.nil_append, lexeme_stray rest hletter hdigit hsymbol, loneChar, if_pos hascii]
  | fragment h =>
      obtain ⟨rfl, rfl⟩ := List.cons.inj hbytes
      obtain ⟨_, hletter, hdigit, hsymbol⟩ := fragment_spec h
      rw [List.nil_append, lexeme_stray rest hletter hdigit hsymbol, loneChar,
        if_neg (UInt8.not_lt.mpr h)]
      rfl

/-! ## Where lexemes begin -/

/-- No run of the class goes over from the one to the other. -/
def Apart (p : UInt8 → Bool) (before rest : List UInt8) : Prop :=
  ∀ a ∈ before.getLast?, p a = true → ∀ b ∈ rest.head?, p b = false

/-- No run of letters or digits goes over from the one to the other. -/
structure Parted (before rest : List UInt8) : Prop where
  letter : Apart isLetter before rest
  digit : Apart isDigit before rest

section

variable {before blanks rest bytes : List UInt8} {b : UInt8} {bs : List UInt8}

theorem parted_nil (rest : List UInt8) : Parted [] rest := ⟨nofun, nofun⟩

/-- A run that begins where no run goes over has no byte of its class in front. -/
theorem Apart.alone {p : UInt8 → Bool} (h : Apart p before (b :: bs)) (hb : p b = true)
    (hrest : ∀ a ∈ rest.head?, p a = false) : Alone p before rest := by
  refine ⟨fun a ha => ?_, hrest⟩
  apply Bool.eq_false_iff.mpr
  intro hlast
  rw [h a ha hlast b rfl] at hb
  exact nomatch hb

theorem mem_of_getLast?_append {α : Type} (front : List α) {l : List α} (hne : l ≠ []) :
    ∀ a ∈ (front ++ l).getLast?, a ∈ l := by
  intro a ha
  rw [List.getLast?_append, List.getLast?_eq_some_getLast hne, Option.some_or] at ha
  obtain rfl := Option.some.inj ha
  exact List.getLast_mem hne

/-- No run goes over from a lexeme to what is behind it. -/
theorem parted_of_ending (before : List UInt8) (hne : bytes ≠ [])
    (h : ∀ a ∈ bytes, Ending a rest) : Parted (before ++ bytes) rest := by
  have hlast := mem_of_getLast?_append before hne
  exact ⟨fun a ha => (h a (hlast a ha)).letter, fun a ha => (h a (hlast a ha)).digit⟩

/-- A blank is part of no run. -/
theorem Parted.skip (h : Parted before (blanks ++ rest)) (hblank : ∀ a ∈ blanks, isBlank a = true) :
    Parted (before ++ blanks) rest := by
  by_cases hnil : blanks = []
  · subst hnil
    simpa using h
  · have hlast := mem_of_getLast?_append before hnil
    constructor
    · intro a ha hletter
      rw [(isBlank_spec (hblank a (hlast a ha))).1] at hletter
      exact nomatch hletter
    · intro a ha hdigit
      rw [(isBlank_spec (hblank a (hlast a ha))).2.1] at hdigit
      exact nomatch hdigit

theorem head?_dropWhile_eq_false (p : UInt8 → Bool) (bytes : List UInt8) :
    ∀ a ∈ (bytes.dropWhile p).head?, p a = false := by
  intro a ha
  have hhead := List.head?_dropWhile_not p bytes
  rw [ha] at hhead
  exact hhead

theorem munch_word (h : Parted before (b :: bs)) (hb : isLetter b = true) :
    ∃ found, found.bytes = b :: bs.takeWhile isLetter ∧ Munch before found (bs.dropWhile isLetter) := by
  have hrun : ∀ a ∈ b :: bs.takeWhile isLetter, isLetter a = true := mem_run hb
  have hbytes := utf8_asciiText fun a ha => lt_of_class (.inl (hrun a ha))
  have hword : IsWord (asciiText (b :: bs.takeWhile isLetter)) :=
    asciiText_run (List.cons_ne_nil _ _) fun a ha => (isLetter_iff a).symm.trans (hrun a ha)
  have halone := h.letter.alone hb (head?_dropWhile_eq_false isLetter bs)
  by_cases hreserved : ∃ kind, (asciiText (b :: bs.takeWhile isLetter), kind) ∈ Kind.reservedWords
  · obtain ⟨kind, hkind⟩ := hreserved
    exact ⟨_, hbytes, .reserved hkind halone⟩
  · exact ⟨_, hbytes, .name hword (not_exists.mp hreserved) halone⟩

theorem munch_number (h : Parted before (b :: bs)) (hb : isDigit b = true) :
    ∃ found, found.bytes = b :: bs.takeWhile isDigit ∧ Munch before found (bs.dropWhile isDigit) := by
  have hrun : ∀ a ∈ b :: bs.takeWhile isDigit, isDigit a = true := mem_run hb
  have hbytes := utf8_asciiText fun a ha => lt_of_class (.inr (.inl (hrun a ha)))
  have hnumber : IsNumeral (asciiText (b :: bs.takeWhile isDigit)) :=
    asciiText_run (List.cons_ne_nil _ _) fun a ha => (isDigit_iff a).symm.trans (hrun a ha)
  exact ⟨_, hbytes, .number hnumber (h.digit.alone hb (head?_dropWhile_eq_false isDigit bs))⟩

/-- A mark stands alone, or is read together with the `=` behind it. -/
theorem munch_mark {kind : Kind} (hmark : (Char.ofUInt8 b, kind) ∈ Kind.marks) :
    ∃ found taken rest, found.bytes = b :: taken ∧ bs = taken ++ rest ∧ Munch before found rest := by
  by_cases hlong : (Char.ofUInt8 b = '=' ∨ Char.ofUInt8 b = '!') ∧ bs.head? = some 0x3d
  · obtain ⟨hsign, hhead⟩ := hlong
    obtain ⟨rest, rfl⟩ := List.head?_eq_some_iff.mp hhead
    rcases hsign with hsign | hsign
    · obtain rfl : b = 0x3d := by rw [← toUInt8_ofUInt8 b, hsign]; rfl
      exact ⟨_, [0x3d], rest, rfl, rfl, .equal⟩
    · obtain rfl : b = 0x21 := by rw [← toUInt8_ofUInt8 b, hsign]; rfl
      exact ⟨_, [0x3d], rest, rfl, rfl, .notEqual⟩
  · refine ⟨_, [], bs, ?_, rfl, .mark hmark fun hsign hhead => hlong ⟨hsign, hhead⟩⟩
    show utf8 (String.singleton (Char.ofUInt8 b)) = [b]
    rw [utf8_singleton (Kind.marks_spec hmark).2.1, toUInt8_ofUInt8]

/-- **At every byte that is no blank a lexeme begins.** -/
theorem exists_munch (h : Parted before (b :: bs)) (hblank : isBlank b = false) :
    ∃ found taken rest, found.bytes = b :: taken ∧ bs = taken ++ rest ∧ Munch before found rest := by
  by_cases hascii : 0x80 ≤ b
  · exact ⟨_, [], bs, rfl, rfl, .fragment hascii⟩
  cases hletter : isLetter b with
  | true =>
      obtain ⟨found, hbytes, hfound⟩ := munch_word h hletter
      exact ⟨found, _, _, hbytes, List.takeWhile_append_dropWhile.symm, hfound⟩
  | false =>
      cases hdigit : isDigit b with
      | true =>
          obtain ⟨found, hbytes, hfound⟩ := munch_number h hdigit
          exact ⟨found, _, _, hbytes, List.takeWhile_append_dropWhile.symm, hfound⟩
      | false =>
          by_cases hmark : ∃ kind, (Char.ofUInt8 b, kind) ∈ Kind.marks
          · obtain ⟨kind, hkind⟩ := hmark
            exact munch_mark hkind
          · have hlt : b < 0x80 := UInt8.not_le.mp hascii
            exact ⟨_, [], bs, rfl, rfl, .stray hlt hblank hletter hdigit (not_exists.mp hmark)⟩

end

/-! ## Whole sources -/

/-- `Munches before bytes lexemes`: behind the bytes `before`, the bytes are the lexemes with any number of
    blanks in front of each and behind the last. -/
inductive Munches : List UInt8 → List UInt8 → List Lexeme → Prop where
  | done {before blanks : List UInt8} (hblank : ∀ b ∈ blanks, isBlank b = true) :
      Munches before blanks []
  | cons {before blanks rest : List UInt8} {found : Lexeme} {lexemes : List Lexeme}
      (hblank : ∀ b ∈ blanks, isBlank b = true) (hfound : Munch (before ++ blanks) found rest)
      (h : Munches (before ++ blanks ++ found.bytes) rest lexemes) :
      Munches before (blanks ++ (found.bytes ++ rest)) (found :: lexemes)

theorem dropWhile_blanks {blanks : List UInt8} (hblank : ∀ b ∈ blanks, isBlank b = true)
    (bytes : List UInt8) : (blanks ++ bytes).dropWhile isBlank = bytes.dropWhile isBlank :=
  List.dropWhile_append_of_pos hblank

/-- Behind blanks, the scanner's lexeme is the one that fits there. -/
theorem Munch.front {before blanks rest : List UInt8} {found : Lexeme} (h : Munch before found rest)
    (hblank : ∀ b ∈ blanks, isBlank b = true) :
    ∃ b bs, found.bytes = b :: bs ∧
      (blanks ++ (found.bytes ++ rest)).dropWhile isBlank = b :: (bs ++ rest) ∧
      lexeme b (bs ++ rest) = found := by
  obtain ⟨b, bs, hbytes, hfirst⟩ := h.exists_first
  refine ⟨b, bs, hbytes, ?_, h.lexeme_eq hbytes⟩
  rw [dropWhile_blanks hblank, hbytes]
  exact List.dropWhile_cons_of_neg (by simp [hfirst])

/-- **All bytes can be cut so.** -/
theorem exists_munches {before bytes : List UInt8} (h : Parted before bytes) :
    ∃ lexemes, Munches before bytes lexemes := by
  have hsplit : bytes.takeWhile isBlank ++ bytes.dropWhile isBlank = bytes :=
    List.takeWhile_append_dropWhile
  have hblank : ∀ a ∈ bytes.takeWhile isBlank, isBlank a = true :=
    fun a ha => List.all_eq_true.mp List.all_takeWhile a ha
  cases hrest : bytes.dropWhile isBlank with
  | nil =>
      rw [hrest, List.append_nil] at hsplit
      rw [← hsplit]
      exact ⟨[], .done hblank⟩
  | cons b bs =>
      have hparted := h
      rw [← hsplit, hrest] at hparted
      obtain ⟨found, taken, rest, hbytes, rfl, hfound⟩ :=
        exists_munch (hparted.skip hblank) (not_isBlank_of_dropWhile hrest)
      have hcut : bytes.takeWhile isBlank ++ (found.bytes ++ rest) = bytes := by
        rw [hbytes, List.cons_append, ← hrest, hsplit]
      have hne : found.bytes ≠ [] := by
        rw [hbytes]
        exact List.cons_ne_nil _ _
      obtain ⟨lexemes, hlexemes⟩ := exists_munches
        (parted_of_ending (before ++ bytes.takeWhile isBlank) hne hfound.ending)
      rw [← hcut]
      exact ⟨found :: lexemes, .cons hblank hfound hlexemes⟩
termination_by bytes.length
decreasing_by
  rw [← hcut, hbytes]
  simp only [List.length_append, List.length_cons]
  omega

namespace Munches

variable {before before' bytes : List UInt8} {lexemes lexemes' : List Lexeme}

/-- The tokens of the bytes are those of the lexemes. -/
theorem tokensOf_eq (h : Munches before bytes lexemes) :
    tokensOf bytes = lexemes.map Lexeme.token := by
  induction h with
  | done hblank =>
      apply tokensOf_of_nil
      simpa using dropWhile_blanks hblank []
  | @cons before blanks rest found lexemes hblank hfound _ ih =>
      obtain ⟨b, bs, hbytes, hfirst, hlexeme⟩ := hfound.front hblank
      have hrest : (b :: (bs ++ rest)).drop found.bytes.length = rest := by
        rw [← List.cons_append, ← hbytes, List.drop_left]
      rw [tokensOf_of_cons hfirst, hlexeme, hrest, List.map_cons, ih]

/-- The first lexeme is the scanner's, and the others are those of the bytes behind it. -/
theorem uncons {found : Lexeme} (h : Munches before bytes (found :: lexemes)) :
    ∃ b bs before', bytes.dropWhile isBlank = b :: bs ∧ found = lexeme b bs ∧
      Munches before' ((b :: bs).drop found.bytes.length) lexemes := by
  cases h with
  | @cons _ blanks rest _ _ hblank hfound h =>
      obtain ⟨b, bs, hbytes, hfirst, hlexeme⟩ := hfound.front hblank
      refine ⟨b, bs ++ rest, before ++ blanks ++ found.bytes, hfirst, hlexeme.symm, ?_⟩
      rw [← List.cons_append, ← hbytes, List.drop_left]
      exact h

theorem dropWhile_of_nil (h : Munches before bytes []) : bytes.dropWhile isBlank = [] := by
  cases h with
  | done hblank => simpa using dropWhile_blanks hblank []

/-- **There is one way only to cut bytes into lexemes.** -/
theorem unique (h : Munches before bytes lexemes) (h' : Munches before' bytes lexemes') :
    lexemes = lexemes' := by
  induction lexemes generalizing before before' bytes lexemes' with
  | nil =>
      cases lexemes' with
      | nil => rfl
      | cons found' lexemes' =>
          obtain ⟨_, _, _, hfirst, _⟩ := h'.uncons
          rw [h.dropWhile_of_nil] at hfirst
          exact nomatch hfirst
  | cons found lexemes ih =>
      obtain ⟨_, _, _, hfirst, rfl, h⟩ := h.uncons
      cases lexemes' with
      | nil =>
          rw [h'.dropWhile_of_nil] at hfirst
          exact nomatch hfirst
      | cons found' lexemes' =>
          obtain ⟨_, _, _, hfirst', rfl, h'⟩ := h'.uncons
          obtain ⟨rfl, rfl⟩ := List.cons.inj (hfirst.symm.trans hfirst')
          rw [ih h h']

theorem exists_munch_of_mem {found : Lexeme} (h : Munches before bytes lexemes)
    (hmem : found ∈ lexemes) : ∃ front rest, Munch front found rest := by
  induction h with
  | done => exact absurd hmem List.not_mem_nil
  | cons _ hfound _ ih =>
      rcases List.mem_cons.mp hmem with rfl | hmem
      · exact ⟨_, _, hfound⟩
      · exact ih hmem

/-- **The bytes of the lexemes are all bytes that are no blanks**, in the order of the source. -/
theorem flatMap_bytes (h : Munches before bytes lexemes) :
    lexemes.flatMap Lexeme.bytes = bytes.filter (!isBlank ·) := by
  induction h with
  | done hblank => simpa using hblank
  | @cons before blanks rest found lexemes hblank hfound _ ih =>
      have hnone : blanks.filter (!isBlank ·) = [] := by simpa using hblank
      have hall : found.bytes.filter (!isBlank ·) = found.bytes := by
        simpa using fun a ha => (hfound.ending a ha).blank
      rw [List.flatMap_cons, ih, List.filter_append, List.filter_append, hnone, hall,
        List.nil_append]

end Munches

/-- **A source is cut into lexemes as long as they can be, and nothing of it is lost.** In one way only can
    the bytes of a text be cut into blanks and lexemes. The tokens of the text are those of the lexemes,
    and behind them the end, with no text. The bytes of a token are its text, or a single fragment of a
    character; and every byte that is no blank belongs to a token, in the order of the source. -/
theorem tokenize_munches (source : String) :
    ∃ lexemes, Munches [] (utf8 source) lexemes ∧
      (∀ others, Munches [] (utf8 source) others → others = lexemes) ∧
      tokenize source = lexemes.map Lexeme.token ++ [⟨.eof, ""⟩] ∧
      (∀ found ∈ lexemes, found.token.kind ≠ .eof ∧ (utf8 found.token.text = found.bytes ∨
        ∃ b, 0x80 ≤ b ∧ found = ⟨⟨.illegal, "\ufffd"⟩, [b]⟩)) ∧
      lexemes.flatMap Lexeme.bytes = (utf8 source).filter (!isBlank ·) := by
  obtain ⟨lexemes, h⟩ := exists_munches (parted_nil (utf8 source))
  refine ⟨lexemes, h, fun others hothers => hothers.unique h, ?_, ?_, h.flatMap_bytes⟩
  · rw [tokenize_eq, h.tokensOf_eq]
    rfl
  · intro found hmem
    obtain ⟨_, _, hfound⟩ := h.exists_munch_of_mem hmem
    refine ⟨?_, hfound.utf8_text⟩
    -- The token is one of those that are read off the source.
    have htoken : found.token ∈ (Cursor.ofString source).tokens := by
      rw [Cursor.tokens_eq]
      show found.token ∈ tokensOf (utf8 source)
      rw [h.tokensOf_eq]
      exact List.mem_map_of_mem hmem
    exact (Cursor.tokens_spelled _ _ htoken).kind_ne_eof

end LetLang
