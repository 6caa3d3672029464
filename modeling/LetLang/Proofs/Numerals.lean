import LetLang.Text.Decimal

/-!
# `LetLang.Proofs.Numerals` — reading numerals and writing them

A numeral is a non-empty run of decimal digits. It is read as the number that it stands for whenever that
number is below the bound, whatever its length; and a number is written as a numeral that stands for it.

## Contents
- `IsNumeral`: what a numeral is.
- `readInt64?_of_isNumeral`: how a numeral is read, with `int64Bound_le_of_readInt64?`.
- `isNumeral_decimal`, `digitsValue_decimal`: how a natural number is written.
-/

namespace LetLang.Text

/-- A non-empty run of decimal digits. -/
def IsNumeral (text : String) : Prop := text ≠ "" ∧ ∀ c ∈ text.toList, c.isDigit = true

instance (text : String) : Decidable (IsNumeral text) :=
  decidable_of_iff (text ≠ "" ∧ text.toList.all Char.isDigit = true)
    (and_congr_right fun _ => List.all_eq_true)

theorem IsNumeral.exists_cons {text : String} (h : IsNumeral text) :
    ∃ c cs, text.toList = c :: cs ∧ c.isDigit = true := by
  cases hlist : text.toList with
  | nil => exact absurd (String.toList_eq_nil_iff.mp hlist) h.1
  | cons c cs => exact ⟨c, cs, rfl, h.2 c (by rw [hlist]; exact List.mem_cons_self)⟩

theorem digitsValue?_of_isNumeral {text : String} (h : IsNumeral text) :
    digitsValue? text.toList = some (digitsValue text.toList) := by
  have hne : text.toList ≠ [] := fun hnil => h.1 (String.toList_eq_nil_iff.mp hnil)
  rw [digitsValue?, if_pos ⟨hne, List.all_eq_true.mpr h.2⟩]

/-- **A numeral is read by its value alone**: a sign or a length plays no part in it. -/
theorem readInt64?_of_isNumeral {text : String} (h : IsNumeral text) :
    readInt64? text =
      if digitsValue text.toList < int64Bound then some (digitsValue text.toList : Int)
      else none := by
  obtain ⟨c, cs, hlist, hdigit⟩ := h.exists_cons
  have hvalue := digitsValue?_of_isNumeral h
  -- The first character is a digit, so neither sign is taken off.
  have hminus : c ≠ '-' := by rintro rfl; exact absurd hdigit (by decide)
  have hplus : c ≠ '+' := by rintro rfl; exact absurd hdigit (by decide)
  unfold readInt64?
  rw [hlist] at hvalue ⊢
  split
  · next heq => exact absurd (List.cons.inj heq).1 hminus
  · next heq => exact absurd (List.cons.inj heq).1 hplus
  · rw [readInt64?.natural?, hvalue]

/-- A numeral that cannot be read stands for a number at or above the bound. -/
theorem int64Bound_le_of_readInt64? {text : String} (h : IsNumeral text)
    (hbad : readInt64? text = none) : int64Bound ≤ digitsValue text.toList := by
  rw [readInt64?_of_isNumeral h] at hbad
  apply Nat.le_of_not_lt
  intro hsmall
  rw [if_pos hsmall] at hbad
  exact nomatch hbad

/-! ## Writing -/

theorem toList_decimal (n : Nat) : (decimal n).toList = Nat.toDigits 10 n :=
  String.toList_ofList

theorem isNumeral_decimal (n : Nat) : IsNumeral (decimal n) := by
  constructor
  · intro hempty
    have hnil : Nat.toDigits 10 n = [] := by rw [← toList_decimal, hempty]; rfl
    exact Nat.toDigits_ne_nil hnil
  · intro c hc
    rw [toList_decimal] at hc
    exact Nat.isDigit_of_mem_toDigits (by decide) (by decide) hc

/-- **A number is written as a numeral that stands for it.** -/
theorem digitsValue_decimal (n : Nat) : digitsValue (decimal n).toList = n := by
  rw [toList_decimal]
  exact Nat.ofDigitChars_toDigits (by decide) (by decide)

end LetLang.Text
