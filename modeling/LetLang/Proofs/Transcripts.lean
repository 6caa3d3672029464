import LetLang.Proofs.Gluing
import LetLang.Session

/-!
# `LetLang.Proofs.Transcripts` — a session goes line by line

An input is cut at its line feeds, and what a session writes for a line depends on that line alone. So a
session over complete lines and more behind them writes what it writes for the lines, and then what it
writes for the rest. It ends at the first line that is no text, whatever follows.

Of a line nothing matters but its tokens, so a carriage return in front of a line feed makes no
difference, wherever it comes from: it is a blank. It is an ASCII byte as well, and so a line is text with
it if it is text without it.

## Contents
- `ofUtf8?_eq_some_iff`, `ofUtf8?_concat`: the text of some bytes, and of bytes with one more behind them.
- `answer_congr`, `answer_return`: the answer to a line depends on its tokens.
- `lines_cons`, `lines_last`: the lines of an input.
- `transcript_line`, `transcript_bad`, `transcript_last`, `transcript_nil`: a session over its first line.
- `transcript_return`: carriage returns at the ends of lines.
- `CompleteLines`, `exchanges`: the inputs that are whole lines of text, and what is written for them.
- `transcript_append`: sessions over inputs with complete lines in front.
-/

namespace LetLang

open Text

/-! ## Text -/

section

variable {bytes : List UInt8} {text : String} {b : UInt8}

/-- **The text of some bytes is the one that they encode.** -/
theorem ofUtf8?_eq_some_iff : ofUtf8? bytes = some text ↔ utf8 text = bytes := by
  have hbytes : utf8 text = bytes ↔ text.toByteArray = ⟨bytes.toArray⟩ := by
    rw [ByteArray.ext_iff, ← Array.toList_inj]
    rfl
  rw [hbytes, ofUtf8?, String.fromUTF8?]
  constructor
  · intro h
    split at h
    · rw [← Option.some.inj h]
      rfl
    · exact nomatch h
  · intro h
    rw [dif_pos (h ▸ text.isValidUTF8)]
    exact congrArg some (String.toByteArray_inj.mp h.symm)

/-- An ASCII byte at the end of a character is all of it. -/
theorem utf8EncodeChar_of_getLast? {c : Char} (hb : b < 0x80)
    (h : (String.utf8EncodeChar c).getLast? = some b) : String.utf8EncodeChar c = [b] := by
  have hfirst : b.IsUTF8FirstByte :=
    forall_byte (p := fun b => b < 0x80 → b.IsUTF8FirstByte) (by decide +kernel) b hb
  have hpos := c.utf8Size_pos
  have hlast : (String.utf8EncodeChar c).length - 1 < (String.utf8EncodeChar c).length := by
    rw [String.length_utf8EncodeChar]
    omega
  have hget : (String.utf8EncodeChar c)[(String.utf8EncodeChar c).length - 1] = b := by
    rw [List.getLast?_eq_getElem?, List.getElem?_eq_getElem hlast] at h
    exact Option.some.inj h
  -- A byte that a character can begin with stands only at its beginning.
  rw [← hget] at hfirst
  have hlength := UInt8.isUTF8FirstByte_getElem_utf8EncodeChar.mp hfirst
  rw [String.length_utf8EncodeChar] at hlength
  have hsize : c.utf8Size = 1 := by omega
  rw [String.utf8EncodeChar_eq_singleton hsize] at h ⊢
  simpa using h

/-- **Bytes with an ASCII byte behind them are text if they are text**, with one more character. -/
theorem ofUtf8?_concat (bytes : List UInt8) (hb : b < 0x80) :
    ofUtf8? (bytes ++ [b]) =
      (ofUtf8? bytes).map (· ++ String.singleton (Char.ofUInt8 b)) := by
  have hsingle : utf8 (String.singleton (Char.ofUInt8 b)) = [b] := by
    rw [utf8_singleton (toNat_ofUInt8_lt hb), toUInt8_ofUInt8]
  cases htext : ofUtf8? bytes with
  | some text =>
      rw [Option.map_some, ofUtf8?_eq_some_iff, utf8_append, ofUtf8?_eq_some_iff.mp htext, hsingle]
  | none =>
      rw [Option.map_none, Option.eq_none_iff_forall_ne_some]
      intro text hall
      have hbytes := ofUtf8?_eq_some_iff.mp hall
      rw [← String.ofList_toList (s := text), utf8_ofList] at hbytes
      rcases List.eq_nil_or_concat text.toList with hnil | ⟨cs, c, hcs⟩
      · rw [hnil] at hbytes
        simp at hbytes
      · -- The last character is the byte, so the others are a text of the bytes in front.
        rw [hcs, List.concat_eq_append, List.flatMap_append, List.flatMap_singleton] at hbytes
        have hne : String.utf8EncodeChar c ≠ [] := by
          rw [← List.length_pos_iff, String.length_utf8EncodeChar]
          exact c.utf8Size_pos
        have hlast : (String.utf8EncodeChar c).getLast? = some b := by
          have hends := congrArg List.getLast? hbytes
          rwa [List.getLast?_append, List.getLast?_eq_some_getLast hne, Option.some_or,
            List.getLast?_concat, ← List.getLast?_eq_some_getLast hne] at hends
        rw [utf8EncodeChar_of_getLast? hb hlast] at hbytes
        have hfront : utf8 (String.ofList cs) = bytes := by
          rw [utf8_ofList]
          exact List.append_cancel_right hbytes
        rw [ofUtf8?_eq_some_iff.mpr hfront] at htext
        exact nomatch htext

end

/-! ## Answers -/

/-- **An answer depends on the tokens of the line**, and on nothing else about it. -/
theorem answer_congr (mode : Mode) {line other : String} (h : tokenize line = tokenize other) :
    answer mode line = answer mode other := by
  cases mode with
  | tokens => simp only [answer, tokensAnswer, tokens_of_tokenize h]
  | tree =>
      obtain ⟨hprogram, hdiagnostics⟩ := Parser.program_congr .standard h.symm
      have hprogram : (parse line).1 = (parse other).1 := hprogram
      have hdiagnostics : (parse line).2.diagnostics = (parse other).2.diagnostics := hdiagnostics
      simp only [answer, treeAnswer, hprogram, hdiagnostics]

/-- A carriage return at the end of a line is a blank. -/
theorem answer_return (mode : Mode) (line : String) : answer mode (line ++ "\r") = answer mode line := by
  apply answer_congr
  have hblank : IsBlankText "\r" := by decide
  have htokens := tokens_append_blanks line "" hblank
  have hempty : (Cursor.ofString "").tokens = [] := (Cursor.tokens_eq _).trans tokensOf_nil
  rw [String.append_empty] at htokens
  rw [tokenize, tokenize, htokens, hempty, List.append_nil]

/-! ## Lines -/

section

variable {line : List UInt8}

theorem all_ne_lineFeed (hline : lineFeed ∉ line) :
    ∀ b ∈ line, decide (b ≠ lineFeed) = true := by
  intro b hb
  exact decide_eq_true fun hfeed => hline (hfeed ▸ hb)

/-- **A line ends at its line feed.** -/
theorem lines_cons (hline : lineFeed ∉ line) (rest : List UInt8) :
    lines (line ++ lineFeed :: rest) = dropReturn line :: lines rest := by
  have hdrop : (line ++ lineFeed :: rest).dropWhile (· ≠ lineFeed) = lineFeed :: rest := by
    rw [List.dropWhile_append_of_pos (all_ne_lineFeed hline)]
    rfl
  have htake : (line ++ lineFeed :: rest).takeWhile (· ≠ lineFeed) = line := by
    rw [List.takeWhile_append_of_pos (all_ne_lineFeed hline)]
    exact List.append_nil line
  rw [lines]
  split
  · next hrest => exact absurd (hdrop.symm.trans hrest) (List.cons_ne_nil _ _)
  · next hrest =>
      obtain ⟨rfl, rfl⟩ := List.cons.inj (hdrop.symm.trans hrest)
      rw [htake]

/-- What is left behind the last line feed is a line as it is. -/
theorem lines_last (hline : lineFeed ∉ line) (hne : line ≠ []) : lines line = [line] := by
  have hdrop : line.dropWhile (· ≠ lineFeed) = [] := by
    rw [← List.append_nil line, List.dropWhile_append_of_pos (all_ne_lineFeed hline)]
    rfl
  rw [lines]
  split
  · rw [if_neg hne]
  · next hrest => exact absurd (hrest.symm.trans hdrop) (List.cons_ne_nil _ _)

@[simp] theorem lines_nil : lines [] = [] := by
  rw [lines]
  rfl

end

/-! ## Sessions -/

section

variable {mode : Mode} {line : List UInt8} {text : String}

theorem transcriptOver_text (htext : ofUtf8? line = some text) (rest : List (List UInt8)) :
    transcriptOver mode (line :: rest) =
      ⟨prompt ++ answer mode text ++ (transcriptOver mode rest).output,
        (transcriptOver mode rest).exitCode⟩ := by
  simp only [transcriptOver, htext]

theorem transcriptOver_bad (hbad : ofUtf8? line = none) (rest : List (List UInt8)) :
    transcriptOver mode (line :: rest) = ⟨prompt, exitBadLine⟩ := by
  simp only [transcriptOver, hbad]

/-- Lines behind the first show in what a session writes behind it, and nowhere else. -/
theorem transcriptOver_congr {rest rest' : List (List UInt8)} (line : List UInt8)
    (h : transcriptOver mode rest = transcriptOver mode rest') :
    transcriptOver mode (line :: rest) = transcriptOver mode (line :: rest') := by
  cases htext : ofUtf8? line with
  | none => rw [transcriptOver_bad htext, transcriptOver_bad htext]
  | some text => rw [transcriptOver_text htext, transcriptOver_text htext, h]

theorem transcriptOver_concat_return (line : List UInt8) (rest : List (List UInt8)) :
    transcriptOver mode ((line ++ [0x0d]) :: rest) = transcriptOver mode (line :: rest) := by
  have hreturn : ofUtf8? (line ++ [0x0d]) = (ofUtf8? line).map (· ++ "\r") :=
    ofUtf8?_concat line (by decide)
  cases htext : ofUtf8? line with
  | none =>
      rw [htext, Option.map_none] at hreturn
      rw [transcriptOver_bad htext, transcriptOver_bad hreturn]
  | some text =>
      rw [htext, Option.map_some] at hreturn
      rw [transcriptOver_text htext, transcriptOver_text hreturn, answer_return]

/-- **A carriage return at the end of a line makes no difference.** -/
theorem transcriptOver_dropReturn (line : List UInt8) (rest : List (List UInt8)) :
    transcriptOver mode (dropReturn line :: rest) = transcriptOver mode (line :: rest) := by
  rw [dropReturn]
  split
  · next hlast =>
      obtain ⟨front, rfl⟩ := List.getLast?_eq_some_iff.mp hlast
      rw [List.dropLast_concat, transcriptOver_concat_return]
  · rfl

theorem transcript_cons (hline : lineFeed ∉ line) (rest : List UInt8) :
    transcript mode (line ++ lineFeed :: rest) = transcriptOver mode (line :: lines rest) := by
  rw [transcript, lines_cons hline, transcriptOver_dropReturn]

@[simp] theorem transcript_nil : transcript mode [] = ⟨prompt ++ "\n", exitDone⟩ := by
  rw [transcript, lines_nil, transcriptOver]

/-- **A session over a line of text and more** writes the prompt and the answer, and then what it writes
    for the rest. -/
theorem transcript_line (hline : lineFeed ∉ line) (htext : ofUtf8? line = some text)
    (rest : List UInt8) :
    transcript mode (line ++ lineFeed :: rest) =
      ⟨prompt ++ answer mode text ++ (transcript mode rest).output,
        (transcript mode rest).exitCode⟩ := by
  rw [transcript_cons hline, transcriptOver_text htext]
  rfl

theorem transcript_last (hline : lineFeed ∉ line) (hne : line ≠ []) (htext : ofUtf8? line = some text) :
    transcript mode line = ⟨prompt ++ answer mode text ++ (prompt ++ "\n"), exitDone⟩ := by
  rw [transcript, lines_last hline hne, transcriptOver_text htext, transcriptOver]

/-- **A session ends at the prompt for a line that is no text.** -/
theorem transcript_bad (hline : lineFeed ∉ line) (hbad : ofUtf8? line = none) :
    transcript mode line = ⟨prompt, exitBadLine⟩ ∧
      ∀ rest, transcript mode (line ++ lineFeed :: rest) = ⟨prompt, exitBadLine⟩ := by
  have hempty : ofUtf8? [] = some "" := ofUtf8?_eq_some_iff.mpr rfl
  have hne : line ≠ [] := by
    rintro rfl
    exact nomatch hempty.symm.trans hbad
  constructor
  · rw [transcript, lines_last hline hne, transcriptOver_bad hbad]
  · intro rest
    rw [transcript_cons hline, transcriptOver_bad hbad]

/-- **A carriage return in front of a line feed makes no difference**, wherever it comes from. -/
theorem transcript_return (before after : List UInt8) :
    transcript mode (before ++ 0x0d :: lineFeed :: after) =
      transcript mode (before ++ lineFeed :: after) := by
  induction hlength : before.length using Nat.strongRecOn generalizing before with
  | ind length ih =>
      by_cases hfeed : lineFeed ∈ before
      · -- The first line is the same in both.
        obtain ⟨line, more, rfl, hline⟩ := List.eq_append_cons_of_mem hfeed
        have hmore := ih more.length (by
          rw [← hlength, List.length_append, List.length_cons]
          omega) more rfl
        rw [List.append_assoc, List.append_assoc, List.cons_append, List.cons_append,
          transcript_cons hline, transcript_cons hline]
        exact transcriptOver_congr line hmore
      · have hreturn : lineFeed ∉ before ++ [0x0d] := by
          rw [List.mem_append, List.mem_singleton]
          rintro (hmem | heq)
          · exact hfeed hmem
          · exact absurd heq (by decide)
        rw [List.append_cons, transcript_cons hreturn, transcript_cons hfeed,
          transcriptOver_concat_return]

end

/-! ## Complete lines -/

/-- The bytes are lines, each with its line feed, and the texts are theirs. A carriage return in front of
    the line feed is left in the text, where it is a blank. -/
inductive CompleteLines : List UInt8 → List String → Prop
  | nil : CompleteLines [] []
  | cons {line rest : List UInt8} {text : String} {texts : List String} (hline : lineFeed ∉ line)
      (htext : ofUtf8? line = some text) (h : CompleteLines rest texts) :
      CompleteLines (line ++ lineFeed :: rest) (text :: texts)

/-- What a session writes for lines, from the prompt for the first to the answer to the last. -/
def exchanges (mode : Mode) (texts : List String) : String :=
  String.join (texts.map fun text => prompt ++ answer mode text)

theorem exchanges_cons (mode : Mode) (text : String) (texts : List String) :
    exchanges mode (text :: texts) = prompt ++ answer mode text ++ exchanges mode texts := by
  simp [exchanges]

/-- **Complete lines come to nothing but what is written for them.** -/
theorem CompleteLines.transcript {mode : Mode} {upper : List UInt8} {texts : List String}
    (h : CompleteLines upper texts) (lower : List UInt8) :
    transcript mode (upper ++ lower) =
      ⟨exchanges mode texts ++ (transcript mode lower).output, (transcript mode lower).exitCode⟩ := by
  induction h with
  | nil =>
      have hnone : exchanges mode [] = "" := rfl
      rw [hnone, String.empty_append, List.nil_append]
  | cons hline htext h ih =>
      rw [List.append_assoc, List.cons_append, transcript_line hline htext, ih, exchanges_cons]
      simp only [String.append_assoc]

/-- **A session goes line by line.** Over complete lines and more it writes what it writes for the lines,
    without the prompt for a line that does not come, and then what it writes for the rest, which also
    says how it ends. A line comes to its prompt and its answer, whether or not a line feed ends it. The
    session ends at the prompt for a line that is no text. A carriage return in front of a line feed makes
    no difference. -/
theorem transcript_append (mode : Mode) :
    (∀ upper texts, CompleteLines upper texts →
      transcript mode upper = ⟨exchanges mode texts ++ (prompt ++ "\n"), 0⟩ ∧
      ∀ lower, transcript mode (upper ++ lower) =
        ⟨exchanges mode texts ++ (transcript mode lower).output, (transcript mode lower).exitCode⟩) ∧
    (∀ line text, lineFeed ∉ line → line ≠ [] → ofUtf8? line = some text →
      transcript mode line = ⟨prompt ++ answer mode text ++ (prompt ++ "\n"), 0⟩) ∧
    (∀ line, lineFeed ∉ line → ofUtf8? line = none →
      transcript mode line = ⟨prompt, 1⟩ ∧
      ∀ rest, transcript mode (line ++ lineFeed :: rest) = ⟨prompt, 1⟩) ∧
    ∀ before after, transcript mode (before ++ 0x0d :: lineFeed :: after) =
      transcript mode (before ++ lineFeed :: after) := by
  refine ⟨fun upper texts h => ⟨?_, h.transcript⟩, ?_, ?_, transcript_return⟩
  · have halone : transcript mode (upper ++ []) = _ := h.transcript []
    rwa [List.append_nil, transcript_nil] at halone
  · intro line text hline hne htext
    exact transcript_last hline hne htext
  · intro line hline hbad
    exact transcript_bad hline hbad

/-- Behind two lines comes one that is no text, and nothing behind that counts. -/
theorem transcript_append_bad_line :
    transcript .tree (utf8 "1 +a\r\n-\n" ++ ([0xff] ++ lineFeed :: utf8 "7\n")) =
      ⟨">> (1+a)\n>> Error: NoPrefixParseFn: no prefix parse function for EOF found\n" ++
        "  | `EOF` cannot start an expression\n>> ", 1⟩ := by
  have hfirst : ofUtf8? (utf8 "1 +a\r") = some "1 +a\r" := ofUtf8?_eq_some_iff.mpr rfl
  have hsecond : ofUtf8? (utf8 "-") = some "-" := ofUtf8?_eq_some_iff.mpr rfl
  have hbad : ofUtf8? [0xff] = none := by decide +kernel
  have hlines : CompleteLines (utf8 "1 +a\r\n-\n") ["1 +a\r", "-"] :=
    .cons (by decide) hfirst (.cons (by decide) hsecond .nil)
  have hshown : exchanges .tree ["1 +a\r", "-"] ++ prompt =
      ">> (1+a)\n>> Error: NoPrefixParseFn: no prefix parse function for EOF found\n" ++
        "  | `EOF` cannot start an expression\n>> " := by decide +kernel
  rw [((transcript_append .tree).1 _ _ hlines).2,
    ((transcript_append .tree).2.2.1 [0xff] (by decide) hbad).2, hshown]

end LetLang
