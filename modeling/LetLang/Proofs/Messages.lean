import LetLang.Proofs.Briefs

/-!
# `LetLang.Proofs.Messages` — a message tells what it is about

Messages show kinds by their names and texts between double quotes. A text may hold anything: quotes,
backslashes, what looks like an escape, or the words of the message around it. It is read back all the
same, since each character is written in a way that tells where it ends, and the quote that closes the text
is the first one that is not escaped. Which characters count as printable plays no part in this: a
character that is written by its code point and one that is shown as itself are both read back.

The names of kinds hold no quote and no space, so a name ends in front of the first of them, even where the
name is itself a comma or a parenthesis.

## Contents
- `unescape?`: one character, read off the front of quoted text.
- `unescape?_escape`: a character is read back, whatever follows it.
- `quoteWith_cancel`: so is a quoted text.
- `Token.renderWith_inj`, `Diagnostic.messageWith_inj`: what is told by what a message shows.
- `messages_tell`: tokens and diagnostics are equal if they are shown alike.
-/

namespace LetLang

namespace Text

/-! ## Numbers in hexadecimal -/

/-- What a hexadecimal digit counts. -/
def hexDigitValue (c : Char) : Nat :=
  if c.isDigit then c.toNat - '0'.toNat else c.toNat - 'a'.toNat + 10

/-- The number that hexadecimal digits stand for, the most significant one first. -/
def hexValue (digits : List Char) : Nat :=
  digits.foldl (fun value c => 16 * value + hexDigitValue c) 0

theorem hexDigitValue_digitChar {n : Nat} (h : n < 16) : hexDigitValue n.digitChar = n := by
  revert n
  decide

theorem digitChar_ne_brace {n : Nat} (h : n < 16) : n.digitChar ≠ '\x7d' := by
  revert n
  decide

theorem hexValue_concat (digits : List Char) (c : Char) :
    hexValue (digits ++ [c]) = 16 * hexValue digits + hexDigitValue c := by
  rw [hexValue, List.foldl_append]
  rfl

/-- **A number is read back from its digits**, and none of them is a brace. -/
theorem hexValue_toDigits (n : Nat) :
    hexValue (Nat.toDigits 16 n) = n ∧ '\x7d' ∉ Nat.toDigits 16 n := by
  induction n using Nat.strongRecOn with
  | ind n ih =>
      rw [Nat.toDigits_eq_if (by decide)]
      split
      · next hlt =>
          refine ⟨?_, fun hmem => digitChar_ne_brace hlt (List.mem_singleton.mp hmem).symm⟩
          rw [← List.nil_append [n.digitChar], hexValue_concat, hexDigitValue_digitChar hlt]
          exact Nat.zero_add n
      · next hge =>
          have hlast : n % 16 < 16 := Nat.mod_lt n (by decide)
          obtain ⟨hvalue, hbrace⟩ := ih (n / 16) (by omega)
          constructor
          · rw [hexValue_concat, hvalue, hexDigitValue_digitChar hlast]
            omega
          · intro hmem
            rcases List.mem_append.mp hmem with hfront | hback
            · exact hbrace hfront
            · exact digitChar_ne_brace hlast (List.mem_singleton.mp hback).symm

/-! ## One character -/

/-- Reads one character off the front of quoted text, with what follows it. There is none where the text
    ends, at a quote that is not escaped. -/
def unescape? : List Char → Option (Char × List Char)
  | [] => none
  | '\"' :: _ => none
  | '\\' :: '0' :: rest => some ('\x00', rest)
  | '\\' :: 't' :: rest => some ('\t', rest)
  | '\\' :: 'r' :: rest => some ('\r', rest)
  | '\\' :: 'n' :: rest => some ('\n', rest)
  | '\\' :: '\"' :: rest => some ('\"', rest)
  | '\\' :: '\\' :: rest => some ('\\', rest)
  | '\\' :: 'u' :: '\x7b' :: rest =>
    let digits := rest.takeWhile (· ≠ '\x7d')
    some (Char.ofNat (hexValue digits), rest.drop (digits.length + 1))
  | '\\' :: _ => none
  | c :: rest => some (c, rest)

theorem unescape?_plain {c : Char} (hquote : c ≠ '\"') (hbackslash : c ≠ '\\') (rest : List Char) :
    unescape? (c :: rest) = some (c, rest) := by
  unfold unescape?
  split <;> simp_all

theorem unescape?_code (c : Char) (rest : List Char) :
    unescape? (['\\', 'u', '\x7b'] ++ Nat.toDigits 16 c.toNat ++ ['\x7d'] ++ rest) = some (c, rest) := by
  obtain ⟨hvalue, hbrace⟩ := hexValue_toDigits c.toNat
  have hdigits := takeWhile_ne hbrace rest
  simp only [List.append_assoc, List.cons_append, List.nil_append, unescape?, hdigits, hvalue,
    Char.ofNat_toNat]
  rw [List.drop_append, List.drop_eq_nil_of_le (Nat.le_succ _)]
  simp

/-- **A character is read back**, whatever counts as printable and whatever follows. -/
theorem unescape?_escape (printable : Char → Bool) (c : Char) (rest : List Char) :
    unescape? (escape printable c ++ rest) = some (c, rest) := by
  unfold escape
  split_ifs with hnul htab hreturn hfeed hquote hbackslash hprintable
  · rw [hnul]; rfl
  · rw [htab]; rfl
  · rw [hreturn]; rfl
  · rw [hfeed]; rfl
  · rw [hquote]; rfl
  · rw [hbackslash]; rfl
  · exact unescape?_plain hquote hbackslash rest
  · exact unescape?_code c rest

/-! ## Whole texts -/

section

variable {p q : Char → Bool} {xs ys rest more : List Char}

/-- A quote ends the characters in front of it, and is none of them. -/
theorem flatMap_escape_cancel
    (h : xs.flatMap (escape p) ++ '\"' :: rest = ys.flatMap (escape q) ++ '\"' :: more) :
    xs = ys ∧ rest = more := by
  induction xs generalizing ys with
  | nil =>
      cases ys with
      | nil => exact ⟨rfl, (List.cons.inj h).2⟩
      | cons d ys =>
          have hread := congrArg unescape? h
          rw [List.flatMap_cons, List.append_assoc, unescape?_escape] at hread
          exact nomatch hread
  | cons c xs ih =>
      cases ys with
      | nil =>
          have hread := congrArg unescape? h
          rw [List.flatMap_cons, List.append_assoc, unescape?_escape] at hread
          exact nomatch hread
      | cons d ys =>
          have hread := congrArg unescape? h
          rw [List.flatMap_cons, List.append_assoc, unescape?_escape, List.flatMap_cons,
            List.append_assoc, unescape?_escape] at hread
          obtain ⟨hfirst, hrest⟩ := Prod.mk.inj (Option.some.inj hread)
          obtain ⟨hxs, hmore⟩ := ih hrest
          exact ⟨congrArg₂ List.cons hfirst hxs, hmore⟩

/-- **A quoted text is read back**, even if it has been quoted with another notion of printable, and so is
    the place where it ends. -/
theorem quoteWith_cancel {text other : String}
    (h : (quoteWith p text).toList ++ rest = (quoteWith q other).toList ++ more) :
    text = other ∧ rest = more := by
  simp only [quoteWith, String.toList_ofList, List.cons_append, List.append_assoc, List.nil_append]
    at h
  obtain ⟨htext, hrest⟩ := flatMap_escape_cancel (List.cons.inj h).2
  exact ⟨String.toList_inj.mp htext, hrest⟩

end

end Text

/-! ## Tokens and diagnostics -/

/-- There is no quote in the name of a kind. -/
theorem Kind.quote_not_mem_name (kind : Kind) : '\"' ∉ kind.name.toList := by
  cases kind <;> decide

variable {p q : Char → Bool}

theorem Token.toList_renderWith (token : Token) :
    (token.renderWith p).toList =
      token.kind.name.toList ++ ['('] ++ ((Text.quoteWith p token.text).toList ++ [')']) := by
  simp [renderWith]

/-- **A token is told by its kind and its quoted text.** The name of the kind ends at the parenthesis in
    front of the first quote. -/
theorem Token.renderWith_inj {token other : Token} (h : token.renderWith p = other.renderWith q) :
    token = other := by
  have hopened (kind : Kind) : '\"' ∉ kind.name.toList ++ ['('] := by
    simp [kind.quote_not_mem_name]
  have hlist := String.toList_inj.mpr h
  simp only [toList_renderWith] at hlist
  -- The parts in front of the quote are equal, so the quoted texts are, with what closes them.
  have hfront : token.kind.name.toList ++ ['('] = other.kind.name.toList ++ ['('] := by
    simp only [Text.quoteWith, String.toList_ofList, List.cons_append] at hlist
    exact (append_cons_cancel (hopened _) (hopened _) hlist).1
  have hkind : token.kind = other.kind :=
    Kind.name_inj (String.toList_inj.mp (List.append_cancel_right hfront))
  rw [hfront] at hlist
  have htext : token.text = other.text := (Text.quoteWith_cancel (List.append_cancel_left hlist)).1
  cases token
  cases other
  exact congrArg₂ Token.mk hkind htext

namespace Diagnostic

/-- The first character of a message. -/
def initial : Diagnostic → Char
  | unexpectedToken _ _ => 'e'
  | noOperand _ => 'n'
  | badInteger _ => 'c'

theorem toList_unexpectedToken (expected got : Kind) :
    ((unexpectedToken expected got).messageWith p).toList =
      "expected next token to be ".toList ++
        (expected.name.toList ++ [','] ++ ' ' :: ("got ".toList ++ got.name.toList)) := by
  show ("expected next token to be " ++ expected.name ++ ", got " ++ got.name).toList = _
  have hcomma : ", got ".toList = [','] ++ ' ' :: "got ".toList := by decide
  simp only [String.toList_append, List.append_assoc, hcomma, List.cons_append]

theorem toList_noOperand (kind : Kind) :
    ((noOperand kind).messageWith p).toList =
      "no prefix parse function for ".toList ++ (kind.name.toList ++ " found".toList) := by
  show ("no prefix parse function for " ++ kind.name ++ " found").toList = _
  simp only [String.toList_append, List.append_assoc]

theorem toList_badInteger (text : String) :
    ((badInteger text).messageWith p).toList =
      "could not parse ".toList ++ ((Text.quoteWith p text).toList ++ " as integer".toList) := by
  show ("could not parse " ++ Text.quoteWith p text ++ " as integer").toList = _
  simp only [String.toList_append, List.append_assoc]

theorem head?_messageWith (d : Diagnostic) : (d.messageWith p).toList.head? = some d.initial := by
  cases d with
  | unexpectedToken expected got =>
      rw [toList_unexpectedToken, List.head?_append_of_ne_nil _ (by decide)]
      show "expected next token to be ".toList.head? = some 'e'
      decide
  | noOperand kind =>
      rw [toList_noOperand, List.head?_append_of_ne_nil _ (by decide)]
      show "no prefix parse function for ".toList.head? = some 'n'
      decide
  | badInteger text =>
      rw [toList_badInteger, List.head?_append_of_ne_nil _ (by decide)]
      show "could not parse ".toList.head? = some 'c'
      decide

/-- **A diagnostic is told by its message.** -/
theorem messageWith_inj {d e : Diagnostic} (h : d.messageWith p = e.messageWith q) : d = e := by
  have hinitial : d.initial = e.initial := by
    have hhead := congrArg (fun message => message.toList.head?) h
    simp only [head?_messageWith] at hhead
    exact Option.some.inj hhead
  have hlist := String.toList_inj.mpr h
  cases d with
  | unexpectedToken expected got =>
      cases e with
      | unexpectedToken expected' got' =>
          -- The first name ends at the comma in front of the first space.
          rw [toList_unexpectedToken, toList_unexpectedToken] at hlist
          have hspace (kind : Kind) : ' ' ∉ kind.name.toList ++ [','] := by
            simp [(Kind.not_mem_name kind).1]
          obtain ⟨hfront, hback⟩ :=
            append_cons_cancel (hspace _) (hspace _) (List.append_cancel_left hlist)
          have hexpected := String.toList_inj.mp (List.append_cancel_right hfront)
          have hgot := String.toList_inj.mp (List.append_cancel_left hback)
          rw [Kind.name_inj hexpected, Kind.name_inj hgot]
      | noOperand | badInteger => exact absurd hinitial (by simp only [initial]; decide)
  | noOperand kind =>
      cases e with
      | noOperand kind' =>
          rw [toList_noOperand, toList_noOperand] at hlist
          have hname := List.append_cancel_right (List.append_cancel_left hlist)
          rw [Kind.name_inj (String.toList_inj.mp hname)]
      | unexpectedToken | badInteger => exact absurd hinitial (by simp only [initial]; decide)
  | badInteger text =>
      cases e with
      | badInteger text' =>
          rw [toList_badInteger, toList_badInteger] at hlist
          rw [(Text.quoteWith_cancel (List.append_cancel_left hlist)).1]
      | unexpectedToken | noOperand => exact absurd hinitial (by simp only [initial]; decide)

end Diagnostic

/-- **What is shown tells what it is.** Whichever characters count as printable, two tokens are shown alike
    only if they are the same, kind and text, and two diagnostics only if they are the same. -/
theorem messages_tell (printable : Char → Bool) :
    (∀ token other : Token,
      token.renderWith printable = other.renderWith printable ↔ token = other) ∧
    ∀ d e : Diagnostic, d.messageWith printable = e.messageWith printable ↔ d = e := by
  refine ⟨fun token other => ⟨Token.renderWith_inj, ?_⟩, fun d e => ⟨Diagnostic.messageWith_inj, ?_⟩⟩
  · intro h
    rw [h]
  · intro h
    rw [h]

/-- The name of a kind may be a parenthesis, and the text may look like the end of a token. -/
example : (Token.mk .openParen "(\"\")").render = "((\"(\\\"\\\")\")" := by decide +kernel

end LetLang
