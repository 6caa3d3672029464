import Mathlib.Data.Nat.Digits.Defs
import LetLang.Parser.Expression
import LetLang.Proofs.Rendering

/-!
# `LetLang.Proofs.Integers` — which tokens are integers

An integer is refused for its value and for nothing else. Its digits may be as many as they like, zeros in
front included; what counts is the number that they stand for, each of them by its place. The reader would
take a sign too, but no token of a source is a sign with something behind it, so among the tokens of a
source those that it takes are the numerals below the bound.

## Contents
- `placeValue`, `IsInt64`: the number that digits stand for, and the numerals in range.
- `padded`: zeros in front, with `IsInt64.padded` and `placeValue_padded`.
- `Signed`, `readInt64?_of_not_signed`: how a text without a sign is read.
- `Cursor.next_not_signed`: the scanner delivers no sign with something behind it.
- `Parser.integer_exact`: what is an integer and what is not, and how integers are printed.
-/

namespace LetLang.Text

/-! ## Numerals by place -/

/-- The sum of the digits, each times the power of ten of its place. The last digit counts ones. -/
def placeValue (text : String) : Nat :=
  Nat.ofDigits 10 (text.toList.reverse.map fun c => c.toNat - '0'.toNat)

/-- A run of decimal digits that stands for a number in the signed 64-bit range. -/
def IsInt64 (text : String) : Prop := IsNumeral text ∧ placeValue text ≤ 2 ^ 63 - 1

instance (text : String) : Decidable (IsInt64 text) := inferInstanceAs (Decidable (_ ∧ _))

/-- The text with `n` zeros in front. -/
def padded (n : Nat) (text : String) : String := String.ofList (List.replicate n '0') ++ text

section

variable {text : String}

/-- **Read from the left, digits give the sum of their places.** -/
theorem digitsValue_eq_placeValue (text : String) : digitsValue text.toList = placeValue text := by
  rw [digitsValue, List.foldl_eq_foldr_reverse, placeValue, Nat.ofDigits_eq_foldr, List.foldr_map]
  congr 1
  funext c value
  simp only [Nat.cast_id]
  omega

theorem toList_padded (n : Nat) (text : String) :
    (padded n text).toList = List.replicate n '0' ++ text.toList := by
  rw [padded, String.toList_append, String.toList_ofList]

/-- **Zeros in front add nothing to the value.** -/
theorem placeValue_padded (n : Nat) (text : String) : placeValue (padded n text) = placeValue text := by
  rw [placeValue, toList_padded, List.reverse_append, List.reverse_replicate, List.map_append,
    List.map_replicate]
  exact Nat.ofDigits_append_replicate_zero _

theorem IsNumeral.padded (h : IsNumeral text) (n : Nat) : IsNumeral (padded n text) := by
  constructor
  · intro hempty
    have hnil : (Text.padded n text).toList = [] := by rw [hempty]; rfl
    rw [toList_padded, List.append_eq_nil_iff] at hnil
    exact h.1 (String.toList_eq_nil_iff.mp hnil.2)
  · intro c hc
    rw [toList_padded] at hc
    rcases List.mem_append.mp hc with hzero | hdigit
    · rw [List.eq_of_mem_replicate hzero]
      rfl
    · exact h.2 c hdigit

theorem IsInt64.padded (h : IsInt64 text) (n : Nat) : IsInt64 (padded n text) :=
  ⟨h.1.padded n, by rw [placeValue_padded]; exact h.2⟩

/-! ## Texts without a sign -/

/-- A sign with something behind it. -/
def Signed (text : String) : Prop :=
  (text.toList.head? = some '+' ∨ text.toList.head? = some '-') ∧ text.toList.tail ≠ []

instance (text : String) : Decidable (Signed text) := inferInstanceAs (Decidable (_ ∧ _))

theorem digitsValue?_eq_none (h : ¬IsNumeral text) : digitsValue? text.toList = none := by
  refine if_neg fun hdigits => h ⟨?_, List.all_eq_true.mp hdigits.2⟩
  rintro rfl
  exact hdigits.1 rfl

/-- What is neither a numeral nor signed is refused. -/
theorem readInt64?_eq_none (hsigned : ¬Signed text) (h : ¬IsNumeral text) : readInt64? text = none := by
  -- Behind a sign there is nothing, and nothing is no number.
  have hbare {sign : Char} {digits : List Char} (hlist : text.toList = sign :: digits)
      (hsign : sign = '+' ∨ sign = '-') : digits = [] := by
    by_contra hne
    refine hsigned ⟨?_, by rwa [hlist]⟩
    rw [hlist]
    exact hsign.imp (congrArg some) (congrArg some)
  unfold readInt64?
  split
  · next digits hlist => rw [hbare hlist (.inr rfl)]; rfl
  · next digits hlist => rw [hbare hlist (.inl rfl)]; rfl
  · rw [readInt64?.natural?, digitsValue?_eq_none h]

theorem isInt64_iff : IsInt64 text ↔ IsNumeral text ∧ digitsValue text.toList < int64Bound := by
  have hbound : int64Bound = 2 ^ 63 := rfl
  rw [IsInt64, digitsValue_eq_placeValue, hbound]
  exact and_congr_right fun _ => Nat.le_sub_one_iff_lt (by decide)

/-- **A text without a sign is read if it is a numeral in range**, as the number that it stands for. -/
theorem readInt64?_of_isInt64 (h : IsInt64 text) : readInt64? text = some (placeValue text : Int) := by
  rw [readInt64?_of_isNumeral h.1, if_pos (isInt64_iff.mp h).2, digitsValue_eq_placeValue]

theorem readInt64?_of_not_signed (hsigned : ¬Signed text) (h : ¬IsInt64 text) :
    readInt64? text = none := by
  by_cases hnumeral : IsNumeral text
  · rw [readInt64?_of_isNumeral hnumeral, if_neg fun hsmall => h (isInt64_iff.mpr ⟨hnumeral, hsmall⟩)]
  · exact readInt64?_eq_none hsigned hnumeral

/-- A number in range is printed as a numeral of its own value. -/
theorem isInt64_decimal {n : Nat} (h : n ≤ 2 ^ 63 - 1) :
    IsInt64 (decimal n) ∧ placeValue (decimal n) = n := by
  have hvalue : placeValue (decimal n) = n := by
    rw [← digitsValue_eq_placeValue, digitsValue_decimal]
  exact ⟨⟨isNumeral_decimal n, by rw [hvalue]; exact h⟩, hvalue⟩

/-- A text of characters of one class is signed only if a sign is of the class. -/
theorem not_signed_of_class {p : Char → Bool} (h : ∀ c ∈ text.toList, p c = true)
    (hplus : p '+' = false) (hminus : p '-' = false) : ¬Signed text := by
  rintro ⟨hsign | hsign, _⟩
  · have hclass := h _ (List.mem_of_head? hsign)
    rw [hplus] at hclass
    exact nomatch hclass
  · have hclass := h _ (List.mem_of_head? hsign)
    rw [hminus] at hclass
    exact nomatch hclass

end

end LetLang.Text

namespace LetLang

open Text

/-! ## Tokens of a source -/

theorem not_signed_of_isWord {text : String} (h : IsWord text) : ¬Signed text :=
  not_signed_of_class h.2 (by decide) (by decide)

/-- A token that a source can hold is a sign alone, or has none. -/
theorem Token.Spelled.not_signed {token : Token} (h : token.Spelled) : ¬Signed token.text := by
  cases h with
  | name h => exact not_signed_of_isWord h.1
  | number h => exact not_signed_of_class h.2 (by decide) (by decide)
  | reserved h => exact not_signed_of_isWord (Kind.isWord_of_mem_reservedWords h).1
  | @symbol kind h =>
      revert h
      cases kind <;> decide
  | stray =>
      rintro ⟨_, htail⟩
      simp at htail

/-- **The scanner delivers no sign with something behind it.** -/
theorem Cursor.next_not_signed (c : Cursor) : ¬Signed c.next.token.text := by
  by_cases heof : c.next.token.kind = .eof
  · rw [(next_eq_eof heof).1]
    decide
  · exact (next_spelled heof).not_signed

/-! ## The rule for integers -/

namespace Parser

variable {s : Parser}

theorem integer_of_isInt64 (h : IsInt64 s.current.text) :
    s.integer = (some (.integer s.current (placeValue s.current.text)), s) := by
  rw [integer, readInt64?_of_isInt64 h]

theorem integer_of_not_isInt64 (hsigned : ¬Signed s.current.text) (h : ¬IsInt64 s.current.text) :
    s.integer = (none, s.report (.badInteger s.current.text)) := by
  rw [integer, readInt64?_of_not_signed hsigned h]

/-- **The rule for integers is exact.** Let the current token be one that the scanner delivers, of any kind.
    It is read as an integer if and only if it is a run of digits that stands for a number of at most
    `2 ^ 63 - 1`, and then as that number; otherwise its text is reported, once, and the parser stays where
    it is. Zeros in front change neither the one nor the other. A number in range is printed as a single
    token, which is read as the number again. -/
theorem integer_exact :
    (∀ (s : Parser) (c : Cursor), s.current = c.next.token →
      ((∃ e, s.integer.1 = some e) ↔ IsInt64 s.current.text) ∧
      (IsInt64 s.current.text →
        s.integer = (some (.integer s.current (placeValue s.current.text)), s)) ∧
      (¬IsInt64 s.current.text → s.integer.1 = none ∧
        s.integer.2.diagnostics = s.diagnostics.push (.badInteger s.current.text) ∧
        s.integer.2.current = s.current ∧ s.integer.2.peek = s.peek ∧
        s.integer.2.cursor = s.cursor)) ∧
    (∀ (n : Nat) (text : String), IsInt64 text →
      IsInt64 (padded n text) ∧ placeValue (padded n text) = placeValue text) ∧
    ∀ (token : Token) (value : Int), 0 ≤ value → value ≤ 2 ^ 63 - 1 →
      tokenize (Expr.integer token value).render =
          [⟨.int, (Expr.integer token value).render⟩, .eof] ∧
        ∀ s : Parser, s.current = ⟨.int, (Expr.integer token value).render⟩ →
          s.integer = (some (.integer s.current value), s) := by
  refine ⟨fun s c hcurrent => ?_, fun n text h => ⟨h.padded n, placeValue_padded n text⟩,
    fun token value hnonneg hmax => ?_⟩
  · have hsigned : ¬Signed s.current.text := hcurrent ▸ c.next_not_signed
    refine ⟨⟨fun ⟨e, he⟩ => ?_, fun h => ⟨_, by rw [integer_of_isInt64 h]⟩⟩, integer_of_isInt64,
      fun h => ?_⟩
    · by_contra h
      rw [integer_of_not_isInt64 hsigned h] at he
      exact nomatch he
    · rw [integer_of_not_isInt64 hsigned h]
      exact ⟨rfl, rfl, rfl, rfl, rfl⟩
  · obtain ⟨n, rfl⟩ := Int.eq_ofNat_of_zero_le hnonneg
    obtain ⟨hrange, hvalue⟩ := isInt64_decimal (n := n) (by omega)
    have htokens := tokensOf_isNumeral hrange.1 clear_nil
    rw [List.append_nil, tokensOf_nil] at htokens
    constructor
    · rw [Expr.render, tokenize_eq, htokens]
      rfl
    · intro s hs
      have hcurrent : s.current.text = decimal n := by rw [hs]; rfl
      rw [integer_of_isInt64 (by rw [hcurrent]; exact hrange), hcurrent, hvalue]

/-- The greatest integer, with zeros in front, is read and printed; the number behind it is refused. -/
theorem integer_exact_limit :
    IsInt64 "009223372036854775807" ∧ ¬IsInt64 "9223372036854775808" ∧
      (start .standard (.ofString "009223372036854775807;")).integer.1 =
        some (.integer ⟨.int, "009223372036854775807"⟩ 9223372036854775807) ∧
      (start .standard (.ofString "9223372036854775808;")).integer.2.diagnostics =
        #[.badInteger "9223372036854775808"] ∧
      placeValue (padded 2 "9223372036854775807") = placeValue "9223372036854775807" ∧
      tokenize "9223372036854775807" = [⟨.int, "9223372036854775807"⟩, .eof] := by
  have hlarge : (start .standard (.ofString "009223372036854775807;")).current =
      ⟨.int, "009223372036854775807"⟩ := by decide +kernel
  have htooLarge : (start .standard (.ofString "9223372036854775808;")).current =
      ⟨.int, "9223372036854775808"⟩ := by decide +kernel
  have hin : IsInt64 "009223372036854775807" := by decide +kernel
  have hout : ¬IsInt64 "9223372036854775808" := by decide +kernel
  have hvalue : placeValue "009223372036854775807" = 9223372036854775807 := by decide +kernel
  have hread := (integer_exact.1 (start .standard (.ofString "009223372036854775807;")) _ rfl).2.1
  have hrefused := (integer_exact.1 (start .standard (.ofString "9223372036854775808;")) _ rfl).2.2
  rw [hlarge] at hread
  rw [htooLarge] at hrefused
  refine ⟨hin, hout, ?_, (hrefused hout).2.1, ?_, ?_⟩
  · rw [hread hin, hvalue]
    rfl
  · exact (integer_exact.2.1 2 "9223372036854775807" (by decide +kernel)).2
  · exact (integer_exact.2.2 .eof 9223372036854775807 (by decide) (by decide)).1

end Parser

end LetLang
