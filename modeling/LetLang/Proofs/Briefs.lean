import Mathlib.Data.List.Basic
import LetLang.Proofs.Listing

/-!
# `LetLang.Proofs.Briefs` — tokens shown one a line

A session can answer a line with its tokens. It shows the kind of each, and the text, as it is, only for the
kinds whose text varies. That tells everything: of any other kind a source can hold but one text. The text
stands behind the first space and between the outermost parentheses, so it may hold spaces and parentheses
of its own; and there is no line feed in it, since a line feed is a blank.

## Contents
- `Kind.ofName?_name`, `Kind.name_inj`: the name of a kind tells the kind.
- `Token.Spelled.text_eq`: so does a kind its text, unless the text is shown.
- `Token.Spelled.brief_inj`: the brief of a token tells the token.
- `textLines_tokensAnswer`: the answer to a line has a line of its own for each token.
- `answer_tokens_iff`: the answer to a line tells the tokens of the line.
-/

namespace LetLang

open Text

/-! ## Kinds and names -/

namespace Kind

/-- **A kind is found by its name.** -/
theorem ofName?_name (kind : Kind) : ofName? kind.name = some kind := by
  cases kind <;> decide

theorem name_inj {kind kind' : Kind} (h : kind.name = kind'.name) : kind = kind' := by
  have hfound := ofName?_name kind
  rw [h, ofName?_name] at hfound
  exact (Option.some.inj hfound).symm

/-- There is no space in a name and no line feed. -/
theorem not_mem_name (kind : Kind) : ' ' ∉ kind.name.toList ∧ '\n' ∉ kind.name.toList := by
  cases kind <;> decide

end Kind

/-! ## One token -/

section

variable {α : Type} [DecidableEq α] {a : α} {xs ys more rest : List α}

/-- The part in front of the first `a`. -/
theorem takeWhile_ne (h : a ∉ xs) (rest : List α) : (xs ++ a :: rest).takeWhile (· ≠ a) = xs := by
  refine takeWhile_run (fun x hx => decide_eq_true (ne_of_mem_of_not_mem hx h)) ?_
  rintro _ ⟨⟩
  simp

/-- Cut at the first `a`, a list falls into the same two parts however it is written. -/
theorem append_cons_cancel (hxs : a ∉ xs) (hys : a ∉ ys) (h : xs ++ a :: rest = ys ++ a :: more) :
    xs = ys ∧ rest = more := by
  have hfront : xs = ys := by rw [← takeWhile_ne hxs rest, h, takeWhile_ne hys more]
  subst hfront
  exact ⟨rfl, (List.cons.inj (List.append_cancel_left h)).2⟩

end

namespace Token

/-- The kinds whose text is shown. -/
def shownKinds : List Kind := [.ident, .int, .illegal]

/-- The part of the text that is shown. -/
def shown (token : Token) : String := if token.kind ∈ shownKinds then token.text else ""

/-- What is shown stands between parentheses behind the name of the kind. -/
theorem toList_brief (token : Token) :
    token.brief.toList = token.kind.name.toList ++ ' ' :: ('(' :: token.shown.toList ++ [')']) := by
  unfold brief shown
  by_cases hshown : token.kind ∈ shownKinds
  · have hone : token.isOneOf [.ident, .int, .illegal] = true := List.contains_iff_mem.mpr hshown
    rw [if_pos hone, if_pos hshown]
    simp
  · have hone : ¬token.isOneOf [.ident, .int, .illegal] = true :=
      fun hone => hshown (List.contains_iff_mem.mp hone)
    rw [if_neg hone, if_neg hshown]
    simp

/-- The name of the kind and what is shown of the text can be told apart: the name ends at the first
    space. -/
theorem brief_eq_iff {token other : Token} :
    token.brief = other.brief ↔ token.kind = other.kind ∧ token.shown = other.shown := by
  rw [← String.toList_inj, toList_brief, toList_brief]
  constructor
  · intro h
    have hname := (Kind.not_mem_name token.kind).1
    have hother := (Kind.not_mem_name other.kind).1
    obtain ⟨hkind, hrest⟩ := append_cons_cancel hname hother h
    refine ⟨Kind.name_inj (String.toList_inj.mp hkind), ?_⟩
    have hshown := List.append_cancel_right (List.cons.inj hrest).2
    exact String.toList_inj.mp hshown
  · rintro ⟨hkind, hshown⟩
    rw [hkind, hshown]

namespace Spelled

variable {token other : Token}

/-- **A kind tells the text of its tokens**, unless the text is shown. -/
theorem text_eq (h : token.Spelled) (h' : other.Spelled) (hkind : token.kind = other.kind)
    (hhidden : token.kind ∉ shownKinds) : token.text = other.text := by
  cases h with
  | name | number | stray => exact absurd (by simp [shownKinds]) hhidden
  | reserved h => exact (h'.text_eq_word (hkind ▸ h)).symm
  | symbol h =>
      rw [h'.text_eq_name (hkind ▸ h)]
      exact congrArg Kind.name hkind

/-- **The brief of a token tells the token.** -/
theorem brief_inj (h : token.Spelled) (h' : other.Spelled) (heq : token.brief = other.brief) :
    token = other := by
  obtain ⟨hkind, hshown⟩ := brief_eq_iff.mp heq
  have htext : token.text = other.text := by
    by_cases hmem : token.kind ∈ shownKinds
    · rwa [shown, shown, if_pos hmem, if_pos (hkind ▸ hmem)] at hshown
    · exact h.text_eq h' hkind hmem
  cases token
  cases other
  exact congrArg₂ Token.mk hkind htext

/-- There is no line feed in the text of a token, since a line feed is a blank. -/
theorem newline_not_mem_text (h : token.Spelled) : '\n' ∉ token.text.toList := by
  cases h with
  | name h => exact h.1.visible.newline_not_mem
  | number h => exact h.visible.newline_not_mem
  | reserved h => exact (Kind.isWord_of_mem_reservedWords h).1.visible.newline_not_mem
  | @symbol kind => exact (Kind.not_mem_name kind).2
  | @stray b hblank =>
      have hne : loneChar b ≠ '\n' :=
        forall_byte (p := fun b => isBlank b = false → loneChar b ≠ '\n') (by decide +kernel) b hblank
      simpa using hne.symm

theorem newline_not_mem_brief (h : token.Spelled) : '\n' ∉ token.brief.toList := by
  have hname := (Kind.not_mem_name token.kind).2
  have hshown : '\n' ∉ token.shown.toList := by
    unfold shown
    split
    · exact h.newline_not_mem_text
    · decide
  rw [toList_brief]
  simp [hname, hshown]

end Spelled

end Token

/-! ## All tokens -/

/-- Texts that each have a line feed behind them, as texts with line feeds between them. -/
theorem join_newline (texts : List String) :
    String.join (texts.map (· ++ "\n")) = "\n".intercalate (texts ++ [""]) := by
  induction texts with
  | nil => rfl
  | cons text texts ih =>
      rw [List.cons_append, String.intercalate_cons_of_ne_nil (by simp), ← ih, List.map_cons]
      simp

/-- **The answer to a line has a line of its own for each token**, and nothing else. -/
theorem textLines_tokensAnswer (line : String) :
    textLines (tokensAnswer line) = (Cursor.ofString line).tokens.map Token.brief ++ [""] := by
  have hjoin : tokensAnswer line =
      String.join (((Cursor.ofString line).tokens.map Token.brief).map (· ++ "\n")) := by
    rw [tokensAnswer, List.map_map]
    rfl
  rw [hjoin, join_newline]
  refine textLines_intercalate (by simp) fun text hmem => ?_
  rcases List.mem_append.mp hmem with hbrief | hlast
  · obtain ⟨token, htoken, rfl⟩ := List.mem_map.mp hbrief
    exact (Cursor.tokens_spelled _ token htoken).newline_not_mem_brief
  · rw [List.mem_singleton.mp hlast]
    decide

/-- The briefs of tokens tell the tokens, one by one. -/
theorem map_brief_inj {tokens others : List Token} (h : ∀ token ∈ tokens, token.Spelled)
    (h' : ∀ other ∈ others, other.Spelled) (heq : tokens.map Token.brief = others.map Token.brief) :
    tokens = others := by
  induction tokens generalizing others with
  | nil => exact (List.map_eq_nil_iff.mp heq.symm).symm
  | cons token tokens ih =>
      cases others with
      | nil => exact nomatch heq
      | cons other others =>
          obtain ⟨hfirst, hrest⟩ := List.forall_mem_cons.mp h
          obtain ⟨hfirst', hrest'⟩ := List.forall_mem_cons.mp h'
          obtain ⟨hbrief, hmore⟩ := List.cons.inj heq
          rw [hfirst.brief_inj hfirst' hbrief, ih hrest hrest' hmore]

/-- **A session that answers with tokens loses nothing.** Every line is answered with one line for each of
    its tokens. Two lines are answered alike if and only if their tokens are the same, kinds and texts. -/
theorem answer_tokens_iff :
    (∀ line : String, textLines (answer .tokens line) =
      (Cursor.ofString line).tokens.map Token.brief ++ [""]) ∧
    ∀ line other : String, answer .tokens line = answer .tokens other ↔ tokenize line = tokenize other := by
  refine ⟨textLines_tokensAnswer, fun line other => ⟨fun h => ?_, answer_congr .tokens⟩⟩
  have hlines : textLines (tokensAnswer line) = textLines (tokensAnswer other) := congrArg textLines h
  rw [textLines_tokensAnswer, textLines_tokensAnswer] at hlines
  have htokens := map_brief_inj (Cursor.tokens_spelled _) (Cursor.tokens_spelled _)
    (List.append_cancel_right hlines)
  rw [tokenize, tokenize, htokens]

/-- Parentheses and control characters are shown as they are. -/
example : answer .tokens "(x\x0b" = "( ()\nIDENT (x)\nILLEGAL (\x0b)\n" := by decide +kernel

end LetLang
