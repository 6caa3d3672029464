import LetLang.Proofs.Segmentation

/-!
# `LetLang.Proofs.Positions` — a cursor in any place

Whoever holds a cursor may read tokens, ask for tokens before the end, and move the cursor by any number of
bytes, into the middle of a character or past the end of the source. None of it leaves a trace: the bytes
ahead are those of the source from the offset on, and of these alone depends what comes. So a cursor goes
on as one at the start of the bytes ahead, with offsets that are greater by its own.

## Contents
- `Cursor.Call`, `Cursor.perform`, `Cursor.after`, `Cursor.answers`: the calls, one and several.
- `Cursor.shift`: more bytes behind, with `Cursor.perform_shift` and from it `Cursor.answers_shift` and
  `Cursor.after_shift`.
- `Cursor.On`: the bytes ahead are those of a source, with `Cursor.On.next`, `Cursor.On.perform` and from
  it `Cursor.On.after`.
- `Cursor.next_takes`: what reading a token takes.
- `Cursor.AtEnd`: where nothing is left, with `Cursor.atEnd_next`.
- `Cursor.Resumes`, `Cursor.resumes_after`: what can be said of a cursor behind any calls.
-/

namespace LetLang

open Text

namespace Cursor

/-! ## Calls -/

/-- A call that the holder of a cursor can make. -/
inductive Call where
  /-- Reads the next token, which may be the end. -/
  | next
  /-- Asks for the next token before the end. -/
  | next?
  /-- Moves the cursor by so many bytes. -/
  | drop (n : Nat)
  deriving DecidableEq, Repr

/-- The answer to a call, and the cursor behind it. A move has no answer. -/
def perform (c : Cursor) : Call → Option Token × Cursor
  | .next => (some c.next.token, c.next.cursor)
  | .next? => c.next?
  | .drop n => (none, c.drop n)

/-- The cursor behind some calls, one after the other. -/
def after (c : Cursor) (calls : List Call) : Cursor :=
  calls.foldl (fun c call => (c.perform call).2) c

/-- The answers to some calls, one after the other. -/
def answers : Cursor → List Call → List (Option Token)
  | _, [] => []
  | c, call :: calls => (c.perform call).1 :: (c.perform call).2.answers calls

/-! ## More bytes behind -/

/-- The cursor with `k` more bytes behind it, and the same bytes ahead. -/
def shift (c : Cursor) (k : Nat) : Cursor := ⟨c.rest, k + c.offset⟩

section

variable {c : Cursor}

theorem drop_shift (c : Cursor) (k n : Nat) : (c.shift k).drop n = (c.drop n).shift k := by
  simp [shift, drop, Nat.add_assoc]

theorem next_shift (c : Cursor) (k : Nat) :
    (c.shift k).next.token = c.next.token ∧ (c.shift k).next.cursor = c.next.cursor.shift k := by
  have hrest : (c.shift k).rest = c.rest := rfl
  have hskip : (c.shift k).skipBlanks = c.skipBlanks.shift k := drop_shift c k _
  refine ⟨(next_congr hrest).1, ?_⟩
  cases hahead : c.rest.dropWhile isBlank with
  | nil => rw [next_of_nil hahead, next_of_nil (hrest ▸ hahead), hskip]
  | cons b bs =>
      rw [next_cursor_of_cons hahead, next_cursor_of_cons (hrest ▸ hahead), hskip, drop_shift]

/-- **Bytes behind the cursor play no part in a call**, and stay behind it. -/
theorem perform_shift (c : Cursor) (k : Nat) (call : Call) :
    (c.shift k).perform call = ((c.perform call).1, (c.perform call).2.shift k) := by
  obtain ⟨htoken, hcursor⟩ := c.next_shift k
  cases call with
  | next => rw [perform, htoken, hcursor]; rfl
  | next? => simp only [perform, next?, htoken, hcursor]
  | drop n => rw [perform, drop_shift]; rfl

theorem answers_shift (c : Cursor) (k : Nat) (calls : List Call) :
    (c.shift k).answers calls = c.answers calls := by
  induction calls generalizing c with
  | nil => rfl
  | cons call calls ih => rw [answers, perform_shift, ih, answers]

theorem after_shift (c : Cursor) (k : Nat) (calls : List Call) :
    (c.shift k).after calls = (c.after calls).shift k := by
  induction calls generalizing c with
  | nil => rfl
  | cons call calls ih =>
      rw [after, List.foldl_cons, perform_shift]
      exact ih _

/-! ## Places in a source -/

/-- The bytes ahead of the cursor are those of the source from its offset on. -/
def On (c : Cursor) (bytes : List UInt8) : Prop := c.rest = bytes.drop c.offset

variable {bytes : List UInt8}

theorem on_ofString (source : String) : (ofString source).On (utf8 source) := rfl

theorem On.drop (h : c.On bytes) (n : Nat) : (c.drop n).On bytes := by
  show c.rest.drop n = bytes.drop (c.offset + n)
  rw [h, List.drop_drop]

theorem On.next (h : c.On bytes) : c.next.cursor.On bytes := by
  obtain ⟨n, hn⟩ := c.exists_drop
  rw [hn]
  exact h.drop n

theorem On.perform (h : c.On bytes) (call : Call) : (c.perform call).2.On bytes := by
  cases call with
  | next | next? => exact h.next
  | drop n => exact h.drop n

/-- **No calls lead off the source.** -/
theorem On.after (h : c.On bytes) (calls : List Call) : (c.after calls).On bytes := by
  induction calls generalizing c with
  | nil => exact h
  | cons call calls ih => exact ih (h.perform call)

/-- A cursor on a source is one at the start of the bytes ahead, with all others behind it. -/
theorem On.eq_shift (h : c.On bytes) : c = (⟨bytes.drop c.offset, 0⟩ : Cursor).shift c.offset := by
  obtain ⟨rest, offset⟩ := c
  obtain rfl : rest = bytes.drop offset := h
  rfl

/-! ## One token -/

/-- **A token is taken with the blanks in front of it, and nothing behind it.** -/
theorem next_takes (h : c.next.token.kind ≠ .eof) :
    ∃ blanks found rest, c.rest = blanks ++ (found.bytes ++ rest) ∧
      (∀ b ∈ blanks, isBlank b = true) ∧ Munch blanks found rest ∧ c.next.token = found.token ∧
      c.next.cursor.offset = c.offset + blanks.length + found.bytes.length := by
  obtain ⟨lexemes, hmunches⟩ := exists_munches (parted_nil c.rest)
  generalize hbytes : c.rest = bytes at hmunches
  cases hmunches with
  | done hblank =>
      have hnil := dropWhile_blanks hblank []
      rw [List.append_nil, ← hbytes] at hnil
      rw [next_of_nil hnil] at h
      exact absurd rfl h
  | @cons _ blanks rest found lexemes hblank hfound _ =>
      obtain ⟨b, bs, htaken, hfirst, hlexeme⟩ := hfound.front hblank
      rw [← hbytes] at hfirst
      have hblanks : c.rest.takeWhile isBlank = blanks := by
        rw [hbytes, htaken]
        refine takeWhile_run hblank ?_
        rintro _ ⟨⟩
        exact not_isBlank_of_dropWhile hfirst
      refine ⟨blanks, found, rest, rfl, hblank, hfound, ?_, ?_⟩
      · rw [(next_of_cons hfirst).1, hlexeme]
      · rw [next_cursor_of_cons hfirst, hlexeme, skipBlanks, hblanks]
        rfl

/-! ## The end -/

/-- Nothing is left: the end is read, and the cursor stays where it is. -/
def AtEnd (c : Cursor) : Prop := c.next = ⟨.eof, c, none⟩

/-- What a call answers where nothing is left. -/
def Call.atEnd : Call → Option Token
  | .next => some .eof
  | .next? | .drop _ => none

theorem atEnd_of_nil (h : c.rest = []) : c.AtEnd := by
  obtain ⟨rest, offset⟩ := c
  obtain rfl : rest = [] := h
  rfl

/-- **Behind the end there is nothing left.** -/
theorem atEnd_next (h : c.next.token.kind = .eof) : c.next.cursor.AtEnd := by
  cases hahead : c.rest.dropWhile isBlank with
  | nil =>
      rw [next_of_nil hahead]
      exact atEnd_of_nil (c.rest_skipBlanks.trans hahead)
  | cons b bs =>
      rw [(next_of_cons hahead).1] at h
      exact absurd h (lexeme_spelled bs (not_isBlank_of_dropWhile hahead)).kind_ne_eof

/-- Only a move changes anything then, and every other call answers with the end. -/
theorem AtEnd.perform (h : c.AtEnd) {call : Call} (hcall : ∀ n, call ≠ .drop n) :
    c.perform call = (call.atEnd, c) := by
  cases call with
  | next => rw [Cursor.perform, h]; rfl
  | next? => rw [Cursor.perform, next?, h]; rfl
  | drop n => exact absurd rfl (hcall n)

theorem AtEnd.stays (h : c.AtEnd) {calls : List Call} (hcalls : ∀ n, Call.drop n ∉ calls) :
    c.after calls = c ∧ c.answers calls = calls.map Call.atEnd := by
  induction calls with
  | nil => exact ⟨rfl, rfl⟩
  | cons call calls ih =>
      have hcall : ∀ n, call ≠ .drop n := fun n heq => hcalls n (heq ▸ List.mem_cons_self)
      have hfirst := h.perform hcall
      obtain ⟨hafter, hanswers⟩ := ih fun n hmem => hcalls n (List.mem_cons_of_mem call hmem)
      constructor
      · rw [Cursor.after, List.foldl_cons, hfirst]
        exact hafter
      · rw [answers, hfirst, hanswers, List.map_cons]

/-! ## Token by token -/

/-- Calls that each take a token, and answer by the first one ahead, answer by the tokens one after the
    other. -/
theorem answers_replicate (call : Call) (answer : List Token → Option Token)
    (htokens : ∀ c : Cursor, (c.perform call).2.tokens = c.tokens.tail)
    (hanswer : ∀ c : Cursor, (c.perform call).1 = answer c.tokens) (c : Cursor) (n : Nat) :
    c.answers (List.replicate n call) = (List.range n).map fun i => answer (c.tokens.drop i) := by
  induction n generalizing c with
  | zero => rfl
  | succ n ih =>
      rw [List.replicate_succ, answers, hanswer, ih, htokens, List.range_succ_eq_map, List.map_cons,
        List.map_map, List.drop_zero]
      congr 1
      refine List.map_congr_left fun i _ => ?_
      rw [List.drop_tail]
      rfl

theorem answers_next (c : Cursor) (n : Nat) :
    c.answers (List.replicate n .next) =
      (List.range n).map fun i => some ((c.tokens.drop i).headD .eof) :=
  answers_replicate .next (fun tokens => some (tokens.headD .eof)) next_cursor_tokens
    (fun c => congrArg some c.next_token_eq) c n

theorem next?_token_eq (c : Cursor) : c.next?.1 = c.tokens.head? := by
  unfold next?
  by_cases heof : c.next.token.kind = .eof
  · rw [tokens_of_eof heof]
    exact if_pos heof
  · rw [tokens_of_ne_eof heof]
    exact if_neg heof

theorem answers_next? (c : Cursor) (n : Nat) :
    c.answers (List.replicate n .next?) = (List.range n).map fun i => (c.tokens.drop i).head? :=
  answers_replicate .next? List.head? next_cursor_tokens next?_token_eq c n

end

/-! ## Anywhere in a source -/

/-- What can be said of a cursor wherever it stands in the bytes of a source. -/
structure Resumes (c : Cursor) (bytes : List UInt8) : Prop where
  /-- The bytes ahead are those of the source from the offset on. -/
  on : c.On bytes
  /-- It answers calls as a cursor at the start of the bytes ahead, and goes as far. -/
  fresh : ∀ calls,
    c.answers calls = (⟨bytes.drop c.offset, 0⟩ : Cursor).answers calls ∧
      (c.after calls).offset = c.offset + ((⟨bytes.drop c.offset, 0⟩ : Cursor).after calls).offset
  /-- The tokens ahead are those of the bytes ahead, cut into lexemes as long as they can be. -/
  munches : ∃ lexemes, Munches [] (bytes.drop c.offset) lexemes ∧
    (∀ others, Munches [] (bytes.drop c.offset) others → others = lexemes) ∧
    c.tokens = lexemes.map Lexeme.token
  /-- There are none at the end of the source and past it. -/
  past : bytes.length ≤ c.offset → c.tokens = []
  /-- They are read one after the other, and the end behind them for ever. -/
  reads : ∀ n, c.answers (List.replicate n .next) =
    (List.range n).map fun i => some (c.tokens.getD i .eof)
  /-- Asked for one after the other, they are given until there are no more. -/
  asks : ∀ n, c.answers (List.replicate n .next?) = (List.range n).map fun i => c.tokens[i]?
  /-- To read a token moves the cursor on, over blanks and a lexeme and not past the source. -/
  takes : c.next.token.kind ≠ .eof →
    (∃ blanks found rest, bytes.drop c.offset = blanks ++ (found.bytes ++ rest) ∧
      (∀ b ∈ blanks, isBlank b = true) ∧ Munch blanks found rest ∧ c.next.token = found.token ∧
      c.next.cursor.offset = c.offset + blanks.length + found.bytes.length) ∧
    c.offset < c.next.cursor.offset ∧ c.next.cursor.offset ≤ bytes.length
  /-- Once the end has been read the cursor stays, and every call is answered with the end. -/
  ends : c.next.token.kind = .eof → ∀ calls, (∀ n, Call.drop n ∉ calls) →
    c.next.cursor.after calls = c.next.cursor ∧
      c.next.cursor.answers calls = calls.map Call.atEnd

variable {c : Cursor} {bytes : List UInt8}

theorem On.resumes (h : c.On bytes) : c.Resumes bytes where
  on := h
  fresh calls := by
    have hanswers := answers_shift ⟨bytes.drop c.offset, 0⟩ c.offset calls
    have hafter := after_shift ⟨bytes.drop c.offset, 0⟩ c.offset calls
    rw [← h.eq_shift] at hanswers hafter
    exact ⟨hanswers, congrArg offset hafter⟩
  munches := by
    rw [← h]
    obtain ⟨lexemes, hmunches⟩ := exists_munches (parted_nil c.rest)
    exact ⟨lexemes, hmunches, fun others hothers => hothers.unique hmunches,
      c.tokens_eq.trans hmunches.tokensOf_eq⟩
  past hle := by
    rw [c.tokens_eq, h, List.drop_eq_nil_of_le hle, tokensOf_nil]
  reads n := by
    rw [answers_next]
    refine List.map_congr_left fun i _ => ?_
    rw [List.headD_eq_head?_getD, List.head?_drop, List.getD_eq_getElem?_getD]
  asks n := by
    rw [answers_next?]
    exact List.map_congr_left fun i _ => List.head?_drop
  takes hne := by
    obtain ⟨blanks, found, rest, hsplit, hblank, hfound, htoken, hoffset⟩ := next_takes hne
    rw [h] at hsplit
    refine ⟨⟨blanks, found, rest, hsplit, hblank, hfound, htoken, hoffset⟩, ?_⟩
    have hlength := congrArg List.length hsplit
    have hpos : 0 < found.bytes.length := List.length_pos_iff.mpr hfound.bytes_ne_nil
    simp only [List.length_drop, List.length_append] at hlength
    omega
  ends heof _ hcalls := (atEnd_next heof).stays hcalls

/-- **A cursor in any place goes on as a new one on the bytes ahead**, whatever calls have led there: reads,
    questions and moves, into a character or past the end. Between two characters these bytes are a text,
    and the tokens ahead are those of the text. -/
theorem resumes_after (source : String) (calls : List Call) :
    ((ofString source).after calls).Resumes (utf8 source) ∧
      ∀ front back, source = front ++ back →
        (utf8 front).length = ((ofString source).after calls).offset →
        ((ofString source).after calls).tokens ++ [.eof] = tokenize back := by
  have hon : ((ofString source).after calls).On (utf8 source) := (on_ofString source).after calls
  refine ⟨hon.resumes, fun front back hsource hlength => ?_⟩
  rw [tokens_eq, hon, ← hlength, hsource, utf8_append, List.drop_left, tokenize_eq]

/-- Behind a character of two bytes that was passed over. -/
theorem resumes_after_character :
    "=é == x" = "=é" ++ " == x" ∧
      (utf8 "=é").length = ((ofString "=é == x").after [.next, .drop 2]).offset ∧
      ((ofString "=é == x").after [.next, .drop 2]).tokens ++ [.eof] = tokenize " == x" := by
  have hsource : "=é == x" = "=é" ++ " == x" := by decide
  have hlength : (utf8 "=é").length = ((ofString "=é == x").after [.next, .drop 2]).offset := by
    decide +kernel
  exact ⟨hsource, hlength, (resumes_after _ [.next, .drop 2]).2 _ _ hsource hlength⟩

/-- In the middle of a character its second byte is a token by itself. -/
example : (ofString "=é").answers [.next, .drop 1, .next, .next?, .drop 9, .next] =
    [some ⟨.assign, "="⟩, none, some ⟨.illegal, "\ufffd"⟩, none, none, some .eof] := by
  decide +kernel

end Cursor

end LetLang
