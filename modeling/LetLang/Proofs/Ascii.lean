import LetLang.Cursor

/-!
# `LetLang.Proofs.Ascii` — ASCII text and its bytes

Words, numbers and symbols are ASCII text. Such a text has one byte for each character, and is read back
from its bytes as it was.

## Contents
- `utf8_append`, `utf8_ofList`: the encoding, piece by piece.
- `IsAscii`, with `utf8_of_isAscii` and `asciiText_utf8`.
- `forall_byte`: what holds of all numbers below 256 holds of all bytes; `forall_ascii` is the same for
  ASCII characters.
- `utf8_asciiText`: ASCII bytes are the encoding of their text.
- `isNameChar`: the characters of names, with `isLetter_iff` and `isDigit_iff`, which say what the two
  classes of bytes are as characters.
-/

namespace LetLang.Text

/-! ## The encoding -/

theorem utf8_append (s t : String) : utf8 (s ++ t) = utf8 s ++ utf8 t := by
  simp [utf8]

theorem utf8_ofList (cs : List Char) :
    utf8 (String.ofList cs) = cs.flatMap String.utf8EncodeChar := by
  simp [utf8, List.utf8Encode]

theorem utf8_ne_nil {text : String} (h : text ≠ "") : utf8 text ≠ [] := by
  intro hnil
  have hbytes : text.toByteArray = ByteArray.empty :=
    ByteArray.ext (Array.toList_eq_nil_iff.mp hnil)
  exact h (String.toByteArray_eq_empty_iff.mp hbytes)

/-- Is every character of the text an ASCII character? -/
def IsAscii (text : String) : Prop := ∀ c ∈ text.toList, c.toNat < 0x80

instance (text : String) : Decidable (IsAscii text) :=
  decidable_of_iff (text.toList.all (fun c => c.toNat < 0x80) = true)
    (List.all_eq_true.trans (forall₂_congr fun _ _ => decide_eq_true_iff))

/-- An ASCII character is its own single byte. -/
theorem utf8EncodeChar_of_lt {c : Char} (h : c.toNat < 0x80) :
    String.utf8EncodeChar c = [c.toUInt8] := by
  rw [String.utf8EncodeChar_eq_singleton, Char.toUInt8_val]
  rw [Char.utf8Size_eq_one_iff, UInt32.le_iff_toNat_le]
  exact Nat.le_of_lt_succ h

theorem ofUInt8_toUInt8 {c : Char} (h : c.toNat < 0x80) : Char.ofUInt8 c.toUInt8 = c := by
  have hval : c.val.toNat < 0x80 := h
  apply Char.ext
  apply UInt32.toNat_inj.mp
  show c.val.toUInt8.toUInt32.toNat = c.val.toNat
  rw [UInt8.toNat_toUInt32, UInt32.toNat_toUInt8]
  omega

theorem flatMap_utf8EncodeChar {cs : List Char} (h : ∀ c ∈ cs, c.toNat < 0x80) :
    cs.flatMap String.utf8EncodeChar = cs.map Char.toUInt8 := by
  induction cs with
  | nil => rfl
  | cons c cs ih =>
      rw [List.flatMap_cons, List.map_cons, utf8EncodeChar_of_lt (h c (by simp)),
        ih (fun d hd => h d (by simp [hd]))]
      rfl

theorem utf8_of_isAscii {text : String} (h : IsAscii text) :
    utf8 text = text.toList.map Char.toUInt8 := by
  rw [← flatMap_utf8EncodeChar h, ← utf8_ofList, String.ofList_toList]

/-- **ASCII text is read back from its bytes.** -/
theorem asciiText_utf8 {text : String} (h : IsAscii text) : asciiText (utf8 text) = text := by
  have hmap : text.toList.map (Char.ofUInt8 ∘ Char.toUInt8) = text.toList :=
    (List.map_congr_left fun c hc => ofUInt8_toUInt8 (h c hc)).trans (List.map_id' _)
  rw [utf8_of_isAscii h, asciiText, List.map_map, hmap, String.ofList_toList]

theorem toList_asciiText (bytes : List UInt8) :
    (asciiText bytes).toList = bytes.map Char.ofUInt8 := by
  rw [asciiText, String.toList_ofList]

end LetLang.Text

namespace LetLang

open Text

/-! ## Classes of bytes as classes of characters -/

/-- What holds of the numbers below 256 holds of all bytes. -/
theorem forall_byte {p : UInt8 → Prop} (h : ∀ n < 256, p (UInt8.ofNat n)) (b : UInt8) : p b := by
  have hb := h b.toNat b.toNat_lt
  rwa [UInt8.ofNat_toNat] at hb

/-- What holds of the first 128 characters holds of all ASCII characters. -/
theorem forall_ascii {p : Char → Prop} (h : ∀ n < 0x80, p (Char.ofNat n)) {c : Char}
    (hc : c.toNat < 0x80) : p c := by
  have hchar := h c.toNat hc
  rwa [Char.ofNat_toNat] at hchar

theorem toUInt8_ofUInt8 (b : UInt8) : (Char.ofUInt8 b).toUInt8 = b :=
  forall_byte (p := fun b => (Char.ofUInt8 b).toUInt8 = b) (by decide +kernel) b

theorem toNat_ofUInt8_lt {b : UInt8} (h : b < 0x80) : (Char.ofUInt8 b).toNat < 0x80 :=
  forall_byte (p := fun b => b < 0x80 → (Char.ofUInt8 b).toNat < 0x80) (by decide +kernel) b h

/-- **ASCII bytes are the encoding of their text.** -/
theorem utf8_asciiText {bytes : List UInt8} (h : ∀ b ∈ bytes, b < 0x80) :
    utf8 (asciiText bytes) = bytes := by
  have hascii : IsAscii (asciiText bytes) := by
    intro c hc
    rw [toList_asciiText, List.mem_map] at hc
    obtain ⟨b, hb, rfl⟩ := hc
    exact toNat_ofUInt8_lt (h b hb)
  rw [utf8_of_isAscii hascii, toList_asciiText, List.map_map]
  exact (List.map_congr_left fun b _ => toUInt8_ofUInt8 b).trans (List.map_id' _)

theorem utf8_singleton {c : Char} (h : c.toNat < 0x80) : utf8 (String.singleton c) = [c.toUInt8] := by
  rw [utf8_of_isAscii]
  · simp
  · intro d hd
    simp only [String.toList_singleton, List.mem_singleton] at hd
    rwa [hd]

/-- The characters that names are made of. -/
def isNameChar (c : Char) : Bool := c.isAlpha || c == '_'

theorem isLetter_iff (b : UInt8) : isLetter b = isNameChar (Char.ofUInt8 b) :=
  forall_byte (p := fun b => isLetter b = isNameChar (Char.ofUInt8 b)) (by decide +kernel) b

theorem isDigit_iff (b : UInt8) : isDigit b = (Char.ofUInt8 b).isDigit :=
  forall_byte (p := fun b => isDigit b = (Char.ofUInt8 b).isDigit) (by decide +kernel) b

theorem lt_of_isNameChar {c : Char} (h : isNameChar c = true) : c.toNat < 0x80 := by
  rcases (Bool.or_eq_true _ _).mp h with halpha | hunderscore
  · rcases (Bool.or_eq_true _ _).mp halpha with hupper | hlower
    · have hle : c.val ≤ 'Z'.val := (of_decide_eq_true hupper).2
      exact Nat.lt_of_le_of_lt (UInt32.le_iff_toNat_le.mp hle) (by decide)
    · have hle : c.val ≤ 'z'.val := of_decide_eq_true ((Bool.and_eq_true _ _).mp hlower).2
      exact Nat.lt_of_le_of_lt (UInt32.le_iff_toNat_le.mp hle) (by decide)
  · rw [beq_iff_eq.mp hunderscore]
    decide

theorem lt_of_isDigit {c : Char} (h : c.isDigit = true) : c.toNat < 0x80 := by
  simp only [Char.isDigit, Bool.and_eq_true, decide_eq_true_eq, ge_iff_le,
    UInt32.le_iff_toNat_le] at h
  exact Nat.lt_of_le_of_lt h.2 (by decide)

/-- The bytes of a text whose characters are all of a class of ASCII characters. -/
theorem all_utf8 {text : String} {p : Char → Bool} (hlt : ∀ c, p c = true → c.toNat < 0x80)
    (h : ∀ c ∈ text.toList, p c = true) : ∀ b ∈ utf8 text, p (Char.ofUInt8 b) = true := by
  intro b hb
  rw [utf8_of_isAscii (fun c hc => hlt c (h c hc)), List.mem_map] at hb
  obtain ⟨c, hc, rfl⟩ := hb
  rw [ofUInt8_toUInt8 (hlt c (h c hc))]
  exact h c hc

end LetLang
