import LetLang.Proofs.Gluing
import LetLang.Proofs.Positions
import LetLang.Proofs.Progress
import LetLang.Proofs.Wording
import Mathlib.Data.List.Forall2

/-!
# `LetLang.Proofs.Chronicle` — the log tells what has happened

A parser that stands at a token has read the two behind it already, so a byte that is refused is noted two
moves before the parser comes to its token: in front of the move to the token before. Nothing else comes
between these two notes, since both belong to one step. With this, whatever rules the dialect has and
however a source is spelled, the log tells all moves, all bytes refused, all attempts and all diagnostics,
each of them once and in order.

Every step of a parser adds to its journal and takes nothing away. So the record of a run is an invariant
of single steps, by the number of moves that have been made. The log shows the journal line by line, and each
line by words that tell the sort of its event, so what is recorded can be read off the messages alone.

## Contents
- `Cursor.scanAt`: what is read from a cursor on, one token after the other.
- `BeginsAt`: where a token begins, with `Cursor.InFront.beginsAt` for a byte that is refused.
- `Parser.Recorded`: the record of the moves that have been made, kept by `Loop.recorded`.
- `moveLine`, `byteLine`, …, with `filter_moveLine` and its like: the lines that the log shows of them.
- `Chronicle`: the log of a whole program.
- `program_chronicled`: the logs of programs, in every dialect.
-/

namespace LetLang

open Text

/-- The byte that the scanner refused, with its offset, if the event is one of these. -/
@[simp] def Event.refused? : Event → Option (UInt8 × Nat)
  | illegalByte byte offset => some (byte, offset)
  | _ => none

/-! ## Where a token begins -/

/-- The `k`-th token of the bytes begins at `offset` with the byte `b`: the tokens in front of it are those
    of the bytes up to there, and it is the first one of the bytes from there on. -/
structure BeginsAt (bytes : List UInt8) (k : Nat) (b : UInt8) (offset : Nat) : Prop where
  byte : bytes[offset]? = some b
  not_blank : isBlank b = false
  front : tokensOf (bytes.take offset) = (tokensOf bytes).take k
  behind : tokensOf (bytes.drop offset) = (tokensOf bytes).drop k

theorem Kind.ofWord_ne_illegal (word : String) : Kind.ofWord word ≠ .illegal := by
  intro h
  unfold Kind.ofWord at h
  cases hword : Kind.reserved? word with
  | none =>
      rw [hword] at h
      exact nomatch h
  | some kind =>
      rw [hword] at h
      obtain rfl : kind = .illegal := h
      exact absurd (Kind.mem_reservedWords hword) (by simp [Kind.reservedWords])

/-- A byte that is an illegal token is of no class, and no sign. -/
theorem stray_of_illegal {b : UInt8} {bs : List UInt8} (h : (lexeme b bs).token.kind = .illegal) :
    isLetter b = false ∧ isDigit b = false ∧ b ≠ 0x3d := by
  unfold lexeme at h
  split at h
  · exact nomatch h
  split at h
  · exact nomatch h
  cases hsymbol : Kind.ofSymbol? (Char.ofUInt8 b) with
  | some kind =>
      rw [hsymbol] at h
      obtain rfl : kind = .illegal := h
      exact absurd (Kind.mem_symbols hsymbol) (by decide)
  | none =>
      rw [hsymbol] at h
      dsimp only at h
      split at h
      · exact absurd h (Kind.ofWord_ne_illegal _)
      · next hletter =>
          split at h
          · exact nomatch h
          · next hdigit =>
              refine ⟨eq_false_of_ne_true hletter, eq_false_of_ne_true hdigit, ?_⟩
              rintro rfl
              exact nomatch hsymbol

namespace Cursor

variable {c : Cursor} {b : UInt8} {offset k : Nat} {bytes : List UInt8}

/-- The `n`-th scan from a cursor on. -/
def scanAt : Cursor → Nat → Scan
  | c, 0 => c.next
  | c, n + 1 => c.next.cursor.scanAt n

theorem scanAt_token (c : Cursor) (n : Nat) : (c.scanAt n).token = c.tokens.getD n .eof := by
  induction n generalizing c with
  | zero => rw [scanAt, next_token_eq]; cases c.tokens <;> rfl
  | succ n ih =>
      rw [scanAt, ih, next_cursor_tokens]
      cases c.tokens <;> simp

/-- The cursor stands in front of the `k`-th token of the bytes. -/
structure InFront (c : Cursor) (bytes : List UInt8) (k : Nat) : Prop where
  rest : c.rest = bytes.drop c.offset
  tokens : c.tokens = (tokensOf bytes).drop k

theorem inFront_ofString (source : String) : (ofString source).InFront (utf8 source) 0 :=
  ⟨rfl, tokens_eq _⟩

theorem InFront.next (h : c.InFront bytes k) : c.next.cursor.InFront bytes (k + 1) where
  rest := On.next h.rest
  tokens := by rw [next_cursor_tokens, h.tokens, List.tail_drop]

theorem refused_isSome_iff (c : Cursor) : c.next.refused.isSome = true ↔ c.next.token.kind = .illegal := by
  unfold next
  dsimp only
  cases c.skipBlanks.rest with
  | nil => exact iff_of_false Bool.false_ne_true Kind.noConfusion
  | cons b bs =>
      dsimp only
      split <;> simp [*]

theorem exists_of_refused (h : c.next.refused = some (b, offset)) :
    ∃ bs, c.rest.dropWhile isBlank = b :: bs ∧ c.skipBlanks.offset = offset ∧
      (lexeme b bs).token.kind = .illegal := by
  unfold next at h
  dsimp only at h
  rw [c.rest_skipBlanks] at h
  split at h
  · exact nomatch h
  · next b' bs hrest =>
      split at h
      · next hillegal =>
          obtain ⟨rfl, rfl⟩ := Prod.mk.inj (Option.some.inj h)
          exact ⟨bs, hrest, rfl, hillegal⟩
      · exact nomatch h

/-- **A byte that is refused is where its token begins.** -/
theorem InFront.beginsAt (h : c.InFront bytes k) (hrefused : c.next.refused = some (b, offset)) :
    BeginsAt bytes k b offset := by
  obtain ⟨bs, hrest, hoffset, hillegal⟩ := exists_of_refused hrefused
  obtain ⟨hletter, hdigit, hsign⟩ := stray_of_illegal hillegal
  have hdrop : bytes.drop offset = b :: bs := by
    rw [← hrest, ← rest_skipBlanks, ← hoffset, skipBlanks, drop, h.rest, List.drop_drop]
  have hbehind : tokensOf (bytes.drop offset) = (tokensOf bytes).drop k := by
    have hblanks : ∀ a ∈ c.rest.takeWhile isBlank, isBlank a = true :=
      List.all_eq_true.mp List.all_takeWhile
    have hskip := tokensOf_blanks hblanks (b :: bs)
    rw [← hrest, List.takeWhile_append_dropWhile, hrest] at hskip
    rw [hdrop, ← hskip, ← tokens_eq, h.tokens]
  refine ⟨?_, not_isBlank_of_dropWhile hrest, ?_, hbehind⟩
  · rw [← List.head?_drop, hdrop]
    rfl
  · -- Nothing goes on with the byte, so the tokens in front of it are the same without it.
    have hglue : ¬Glued (bytes.take offset) (bytes.drop offset) := by
      rw [hdrop]
      refine not_glued_of_head ?_ fun hhead => absurd (Option.some.inj hhead) hsign
      rintro _ ⟨⟩
      exact ⟨hletter, hdigit⟩
    have hall := tokensOf_append hglue
    rw [List.take_append_drop, hbehind] at hall
    have hsplit := (List.take_append_drop k (tokensOf bytes)).trans hall
    exact (List.append_cancel_right hsplit).symm

theorem InFront.beginsAt_scanAt (h : c.InFront bytes k) {n : Nat}
    (hrefused : (c.scanAt n).refused = some (b, offset)) : BeginsAt bytes (k + n) b offset := by
  induction n generalizing c k with
  | zero => exact h.beginsAt hrefused
  | succ n ih =>
      rw [show k + (n + 1) = (k + 1) + n by omega]
      exact ih h.next hrefused

/-- **A byte is refused exactly where a token is illegal.** -/
theorem scanAt_refused_isSome_iff (c : Cursor) (n : Nat) :
    (c.scanAt n).refused.isSome = true ↔ (c.scanAt n).token.kind = .illegal := by
  induction n generalizing c with
  | zero => exact c.refused_isSome_iff
  | succ n ih => exact ih c.next.cursor

end Cursor

/-! ## The record of some moves -/

section

variable {α : Type} {xs ys before after : List α} {a : α}

/-- What stands somewhere in two lists put together stands in one of them. -/
theorem append_eq_append_cons (h : xs ++ ys = before ++ a :: after) :
    (∃ rest, xs = before ++ a :: rest ∧ after = rest ++ ys) ∨
      ∃ front, before = xs ++ front ∧ ys = front ++ a :: after := by
  rcases List.append_eq_append_iff.mp h with ⟨front, hbefore, hys⟩ | ⟨rest, hxs, hrest⟩
  · exact .inr ⟨front, hbefore, hys⟩
  · cases rest with
    | nil => exact .inr ⟨[], by simp [hxs], hrest.symm⟩
    | cons first rest =>
        obtain ⟨rfl, rfl⟩ := List.cons.inj hrest
        exact .inl ⟨rest, hxs, rfl⟩

end

section

variable {scan : Scan} {event : Event}

/-- A scan notes the byte that it refuses, and nothing else. -/
theorem mem_scanEvents_iff : event ∈ (Parser.scanEvents scan).toList ↔
    ∃ b offset, event = .illegalByte b offset ∧ scan.refused = some (b, offset) := by
  unfold Parser.scanEvents
  cases hrefused : scan.refused with
  | none => simp
  | some r =>
      obtain ⟨b, offset⟩ := r
      simp

theorem refused?_scanEvents :
    (Parser.scanEvents scan).toList.filterMap Event.refused? = scan.refused.toList := by
  unfold Parser.scanEvents
  cases scan.refused <;> rfl

theorem coarse_scanEvents :
    (Parser.scanEvents scan).toList.filter (·.level = .debug) = [] := by
  unfold Parser.scanEvents
  cases scan.refused <;> rfl

/-- Between the note of a byte and that of the move there is nothing. -/
theorem scanEvents_append_eq {front after : List Event} {token : Token} {b : UInt8} {offset : Nat}
    (h : (Parser.scanEvents scan).toList ++ [.advanced token] =
      front ++ .illegalByte b offset :: after) :
    front = [] ∧ scan.refused = some (b, offset) ∧ after = [.advanced token] := by
  unfold Parser.scanEvents at h
  cases hrefused : scan.refused with
  | none =>
      rw [hrefused] at h
      cases front with
      | nil => exact nomatch (List.cons.inj h).1
      | cons first front => simp at h
  | some r =>
      rw [hrefused] at h
      cases front with
      | nil =>
          obtain ⟨heq, rfl⟩ := List.cons.inj h
          obtain ⟨rfl, rfl⟩ := Event.illegalByte.inj heq
          exact ⟨rfl, rfl, rfl⟩
      | cons first front =>
          -- Only the move is left, and it is the note of no byte.
          have hmove : [Event.advanced token] = front ++ .illegalByte b offset :: after :=
            (List.cons.inj h).2
          cases front with
          | nil => exact nomatch (List.cons.inj hmove).1
          | cons second front => simp at hmove

end

/-- The note of a byte that the `k`-th scan has refused stands between `before` and `after` where it has
    to: right in front of the move to the token before, and among the first two in front of everything. -/
structure Placed (c : Cursor) (k : Nat) (before after : List Event) : Prop where
  early : k ≤ 1 → ∀ event ∈ before, event.refused?.isSome = true
  late : 2 ≤ k → before.filterMap Event.visited? =
      (List.range (k - 2)).map (fun i => (c.scanAt (i + 1)).token) ∧
    after.head? = some (.advanced (c.scanAt (k - 1)).token)

/-- The events tell of `k` moves along the tokens from a cursor on, and of all bytes that have been refused
    up to the token behind the next. -/
structure Told (c : Cursor) (k : Nat) (log : List Event) : Prop where
  visited : log.filterMap Event.visited? = (List.range k).map fun i => (c.scanAt (i + 1)).token
  refused : log.filterMap Event.refused? = (List.range (k + 2)).flatMap fun i => (c.scanAt i).refused.toList
  placed : ∀ ⦃before b offset after⦄, log = before ++ .illegalByte b offset :: after →
    ∃ i, (c.scanAt i).refused = some (b, offset) ∧ Placed c i before after

section

variable {c : Cursor} {k : Nat} {log before after : List Event}

theorem Placed.append (h : Placed c k before after) (more : List Event) :
    Placed c k before (after ++ more) where
  early := h.early
  late hk := by
    obtain ⟨hbefore, hafter⟩ := h.late hk
    exact ⟨hbefore, by rw [List.head?_append, hafter, Option.some_or]⟩

/-- The first two tokens are read before there is anything else to tell. -/
theorem told_start (c : Cursor) :
    Told c 0 ((Parser.scanEvents (c.scanAt 0)).toList ++ (Parser.scanEvents (c.scanAt 1)).toList) where
  visited := by simp
  refused := by
    rw [List.filterMap_append, refused?_scanEvents, refused?_scanEvents]
    simp [List.range_succ]
  placed before b offset after h := by
    have hrefused : ∀ event ∈ before ++ .illegalByte b offset :: after,
        ∃ i ≤ 1, ∃ b offset, event = .illegalByte b offset ∧ (c.scanAt i).refused = some (b, offset) := by
      rw [← h]
      intro event hmem
      rcases List.mem_append.mp hmem with hmem | hmem
      · exact ⟨0, Nat.zero_le 1, mem_scanEvents_iff.mp hmem⟩
      · exact ⟨1, Nat.le_refl 1, mem_scanEvents_iff.mp hmem⟩
    obtain ⟨i, hle, _, _, heq, hi⟩ := hrefused _ (List.mem_append_right before List.mem_cons_self)
    obtain ⟨rfl, rfl⟩ := Event.illegalByte.inj heq
    refine ⟨i, hi, fun _ event hmem => ?_, fun hlate => absurd hlate (by omega)⟩
    obtain ⟨_, _, _, _, rfl, _⟩ := hrefused event (List.mem_append_left _ hmem)
    rfl

/-- **A move notes the byte that it reads two tokens ahead**, if that one is refused, and then itself. -/
theorem Told.advance (h : Told c k log) :
    Told c (k + 1) (log ++ ((Parser.scanEvents (c.scanAt (k + 2))).toList ++
      [.advanced (c.scanAt (k + 1)).token])) where
  visited := by
    rw [List.filterMap_append, List.filterMap_append, h.visited, Parser.visited?_scanEvents,
      List.range_succ, List.map_append]
    rfl
  refused := by
    rw [List.filterMap_append, List.filterMap_append, h.refused, refused?_scanEvents,
      List.range_succ (n := k + 2), List.flatMap_append, List.flatMap_singleton]
    exact congrArg _ (List.append_nil _)
  placed before b offset after heq := by
    rcases append_eq_append_cons heq with ⟨rest, hlog, rfl⟩ | ⟨front, rfl, hnew⟩
    · obtain ⟨i, hi, hplaced⟩ := h.placed hlog
      exact ⟨i, hi, hplaced.append _⟩
    · obtain ⟨rfl, hrefused, rfl⟩ := scanEvents_append_eq hnew
      refine ⟨k + 2, hrefused, fun hle => absurd hle (by omega), fun _ => ⟨?_, rfl⟩⟩
      rw [List.append_nil, h.visited, Nat.add_sub_cancel]

/-- A note of something else comes behind all that. -/
theorem Told.note (h : Told c k log) {event : Event} (hvisited : event.visited? = none)
    (hrefused : event.refused? = none) : Told c k (log ++ [event]) where
  visited := by
    rw [List.filterMap_append, h.visited, List.filterMap_cons_none hvisited]
    exact List.append_nil _
  refused := by
    rw [List.filterMap_append, h.refused, List.filterMap_cons_none hrefused]
    exact List.append_nil _
  placed before b offset after heq := by
    rcases append_eq_append_cons heq with ⟨rest, hlog, rfl⟩ | ⟨front, rfl, hnew⟩
    · obtain ⟨i, hi, hplaced⟩ := h.placed hlog
      exact ⟨i, hi, hplaced.append _⟩
    · have hmem : Event.illegalByte b offset ∈ [event] := by
        rw [hnew]
        exact List.mem_append_right front List.mem_cons_self
      rw [← List.mem_singleton.mp hmem] at hrefused
      exact nomatch hrefused

end

namespace Parser

variable {s t : Parser} {c : Cursor} {k : Nat}

/-- The parser has moved on `k` times from the front of a cursor, and its journal tells so. The coarse
    notes are those of its diagnostics. -/
structure Recorded (c : Cursor) (k : Nat) (s : Parser) : Prop where
  later : ∀ i, s.cursor.scanAt i = c.scanAt (k + 2 + i)
  peek : s.peek = (c.scanAt (k + 1)).token
  told : Told c k s.journal.toList
  coarse : s.journal.toList.filter (·.level = .debug) = s.diagnostics.toList.map .syntaxError

theorem recorded_start (dialect : Dialect) (c : Cursor) : Recorded c 0 (start dialect c) where
  later i := by
    rw [Nat.zero_add, Nat.add_comm]
    rfl
  peek := rfl
  told := by
    show Told c 0 (scanEvents (c.scanAt 0) ++ scanEvents (c.scanAt 1)).toList
    rw [Array.toList_append]
    exact told_start c
  coarse := by
    show (scanEvents (c.scanAt 0) ++ scanEvents (c.scanAt 1)).toList.filter _ = []
    rw [Array.toList_append, List.filter_append, coarse_scanEvents, coarse_scanEvents, List.append_nil]

theorem journal_advance (s : Parser) : s.advance.journal.toList =
    s.journal.toList ++ ((scanEvents s.cursor.next).toList ++ [.advanced s.peek]) := by
  simp [advance]

theorem journal_note (s : Parser) (event : Event) :
    (s.note event).journal.toList = s.journal.toList ++ [event] := by
  simp [note]

theorem journal_report (s : Parser) (diagnostic : Diagnostic) :
    (s.report diagnostic).journal.toList = s.journal.toList ++ [.syntaxError diagnostic] := by
  simp [report]

theorem Recorded.advance (h : Recorded c k s) : Recorded c (k + 1) s.advance where
  later i := by
    have hlater := h.later (i + 1)
    rw [show k + 2 + (i + 1) = k + 1 + 2 + i by omega] at hlater
    exact hlater
  peek := congrArg Scan.token (h.later 0)
  told := by
    have hnext : s.cursor.next = c.scanAt (k + 2) := h.later 0
    rw [journal_advance, hnext, h.peek]
    exact h.told.advance
  coarse := by
    rw [journal_advance, List.filter_append, List.filter_append, coarse_scanEvents, h.coarse]
    exact List.append_nil _

theorem Recorded.report (h : Recorded c k s) (diagnostic : Diagnostic) :
    Recorded c k (s.report diagnostic) where
  later := h.later
  peek := h.peek
  told := by
    rw [journal_report]
    exact h.told.note rfl rfl
  coarse := by
    rw [journal_report, List.filter_append, h.coarse]
    simp [Parser.report, Event.level]

theorem Recorded.note (h : Recorded c k s) {event : Event} (hvisited : event.visited? = none)
    (hrefused : event.refused? = none) (hfine : event.level ≠ .debug) :
    Recorded c k (s.note event) where
  later := h.later
  peek := h.peek
  told := by
    rw [journal_note]
    exact h.told.note hvisited hrefused
  coarse := by
    rw [journal_note, List.filter_append, h.coarse, List.filter_cons_of_neg (by simpa using hfine)]
    exact List.append_nil _

/-- **Whatever steps a rule takes, they are recorded.** -/
theorem Recorded.perform {actions : List Action} (h : Recorded c k s)
    (hruled : ∀ action ∈ actions, action.Ruled) : ∃ n, Recorded c n (s.perform actions) := by
  induction actions generalizing s k with
  | nil => exact ⟨k, h⟩
  | cons action actions ih =>
      obtain ⟨hfirst, hmore⟩ := List.forall_mem_cons.mp hruled
      cases hfirst with
      | advance => exact ih h.advance hmore
      | operator kind power => exact ih (h.note rfl rfl Level.noConfusion) hmore
      | report diagnostic => exact ih (h.report diagnostic) hmore

/-- **So is the whole loop.** -/
theorem Loop.recorded {stmts : List Stmt} (h : Loop s stmts t) (hs : Recorded c k s) :
    ∃ n, Recorded c n t := by
  induction h generalizing k with
  | done => exact ⟨k, hs⟩
  | @step s t u result stmts _ hattempt _ ih =>
      obtain ⟨actions, rfl, hlocal⟩ := hattempt.traced
      have hnoted : Recorded c k (s.note (.statement s.current.kind)) := hs.note rfl rfl Level.noConfusion
      obtain ⟨n, hn⟩ := hnoted.perform fun _ => hlocal.shape.ruled
      exact ih hn.advance

end Parser

/-! ## Whole programs -/

/-- The line of a move. -/
def moveLine (token : Token) : Level × String := (.trace, "advanced to " ++ token.render)

/-- The line of a byte that is refused. -/
def byteLine (byte : UInt8) (offset : Nat) : Level × String :=
  (.trace, "illegal byte " ++ hexByte byte ++ " at offset " ++ Text.decimal offset)

/-- The line of an attempt at a statement. -/
def statementLine (kind : Kind) : Level × String := (.trace, "statement starting at " ++ kind.name)

/-- The line of a diagnostic. -/
def errorLine (diagnostic : Diagnostic) : Level × String :=
  (.debug, "syntax error: " ++ diagnostic.message)

/-- The line that sums up, by the numbers of statements and diagnostics. -/
def summaryLine (statements diagnostics : Nat) : Level × String :=
  (.debug, "parsed program: " ++ Text.decimal statements ++ " statements, " ++
    Text.decimal diagnostics ++ " errors")

/-- The lines of the whole log with a message that begins with the words. -/
def Parser.linesOf (s : Parser) (words : String) : List (Level × String) :=
  (s.log .trace).filter (·.2.startsWith words)

section

variable (events : List Event)

theorem filter_moveLine : (events.map Event.line).filter (·.2.startsWith "advanced to ") =
    (events.filterMap Event.visited?).map moveLine := by
  refine Event.filter_line (by simp [Event.openings]) (fun event => ?_) (fun event token h => ?_) _
  · cases event <;> simp [Event.opening]
  · cases event <;> cases h
    rfl

theorem filter_byteLine : (events.map Event.line).filter (·.2.startsWith "illegal byte ") =
    (events.filterMap Event.refused?).map fun r => byteLine r.1 r.2 := by
  refine Event.filter_line (by simp [Event.openings]) (fun event => ?_) (fun event r h => ?_) _
  · cases event <;> simp [Event.opening]
  · cases event <;> cases h
    rfl

theorem filter_statementLine :
    (events.map Event.line).filter (·.2.startsWith "statement starting at ") =
      (events.filterMap Event.attempted?).map statementLine := by
  refine Event.filter_line (by simp [Event.openings]) (fun event => ?_) (fun event kind h => ?_) _
  · cases event <;> simp [Event.opening]
  · cases event <;> cases h
    rfl

end

/-- A line that begins as those of refused bytes do is one of them. -/
theorem startsWith_byteLine_iff (event : Event) :
    event.line.2.startsWith "illegal byte " = true ↔ event.refused?.isSome = true := by
  rw [Event.startsWith_line_iff (by simp [Event.openings])]
  cases event <;> simp [Event.opening]

/-- The log of the parser `t` tells of a run over the source that has read `program`. -/
structure Chronicle (source : String) (program : Program) (t : Parser) : Prop where
  /-- The parser has moved on to every token behind the first, the end included, and once more at the end
      if an expression was missing there. -/
  advanced : t.linesOf "advanced to " =
    ((tokenize source).tail ++
      if Diagnostic.noOperand .eof ∈ t.diagnostics then [Token.eof] else []).map moveLine
  /-- The bytes refused are those of the illegal tokens, one for each and in order. -/
  refused : List.Forall₂ (fun k line => ∃ b offset, BeginsAt (utf8 source) k b offset ∧
      line = byteLine b offset)
    ((List.range (tokenize source).length).filter fun k =>
      ((tokenize source).getD k .eof).kind = .illegal)
    (t.linesOf "illegal byte ")
  /-- Each of them is shown right in front of the move to the token before its own, and if its token is
      one of the first two, in front of everything but such a line. -/
  placed : ∀ before line after, t.log .trace = before ++ line :: after →
    line.2.startsWith "illegal byte " = true →
    ∃ k b offset, BeginsAt (utf8 source) k b offset ∧ line = byteLine b offset ∧
      ((tokenize source).getD k .eof).kind = .illegal ∧
      (k ≤ 1 → ∀ other ∈ before, other.2.startsWith "illegal byte " = true) ∧
      (2 ≤ k → before.filter (·.2.startsWith "advanced to ") =
          ((tokenize source).tail.take (k - 2)).map moveLine ∧
        after.head? = some (moveLine ((tokenize source).getD (k - 1) .eof)))
  /-- There are as many attempts as statements and diagnostics. -/
  attempted : (t.linesOf "statement starting at ").length =
    program.statements.length + t.diagnostics.size
  /-- The coarse lines are one for each diagnostic, in order, and the summary. -/
  coarse : (t.log .trace).filter (·.1 = .debug) = t.diagnostics.toList.map errorLine ++
    [summaryLine program.statements.length t.diagnostics.size]
  /-- At the level before the finest the log shows these alone. -/
  debug : t.log .debug = (t.log .trace).filter (·.1 = .debug)
  /-- The summary is the last line of all. -/
  last : (t.log .trace).getLast? =
    some (summaryLine program.statements.length t.diagnostics.size)

section

variable {source : String} {k n : Nat}

theorem scanAt_ofString (source : String) (n : Nat) :
    ((Cursor.ofString source).scanAt n).token = (tokenize source).getD n .eof := by
  rw [Cursor.scanAt_token, tokenize_getD]

theorem length_tokenize (source : String) :
    (tokenize source).length = (Cursor.ofString source).tokens.length + 1 := by
  simp [tokenize]

/-- The moves that do not go over the end lead to the tokens behind the first. -/
theorem map_scanAt (hk : k + 1 ≤ (tokenize source).length) :
    (List.range k).map (fun i => ((Cursor.ofString source).scanAt (i + 1)).token) =
      (tokenize source).tail.take k := by
  apply List.ext_getElem
  · simp
    omega
  · intro i hi _
    have hlt : i + 1 < (tokenize source).length := by
      rw [List.length_map, List.length_range] at hi
      omega
    simp [scanAt_ofString, hlt]

/-- Behind the end nothing is refused. -/
theorem lt_of_illegal (h : ((tokenize source).getD k .eof).kind = .illegal) :
    k < (tokenize source).length := by
  refine Nat.lt_of_not_le fun hle => ?_
  rw [List.getD_eq_getElem?_getD, List.getElem?_eq_none hle] at h
  exact nomatch h

theorem filter_illegal (hle : (tokenize source).length ≤ n) :
    (List.range n).filter (fun k => ((tokenize source).getD k .eof).kind = .illegal) =
      (List.range (tokenize source).length).filter fun k =>
        ((tokenize source).getD k .eof).kind = .illegal := by
  obtain ⟨m, rfl⟩ := Nat.exists_eq_add_of_le hle
  have hbehind : ((List.range m).map ((tokenize source).length + ·)).filter (fun k =>
      ((tokenize source).getD k .eof).kind = .illegal) = [] := by
    rw [List.filter_eq_nil_iff]
    intro k hk hillegal
    obtain ⟨i, _, rfl⟩ := List.mem_map.mp hk
    exact absurd (lt_of_illegal (of_decide_eq_true hillegal)) (by omega)
  rw [List.range_add, List.filter_append, hbehind, List.append_nil]

theorem forall₂_filter_flatMap {α β : Type} {R : α → β → Prop} {p : α → Bool} {f : α → Option β}
    (hp : ∀ a, (f a).isSome = p a) (hR : ∀ a b, f a = some b → R a b) (l : List α) :
    List.Forall₂ R (l.filter p) (l.flatMap fun a => (f a).toList) := by
  induction l with
  | nil => exact .nil
  | cons a l ih =>
      have ha := hp a
      cases hfa : f a with
      | none =>
          rw [hfa] at ha
          simpa [hfa, ← ha] using ih
      | some b =>
          rw [hfa] at ha
          simpa [hfa, ← ha] using ⟨hR a b hfa, ih⟩

theorem exists_illegal {b : UInt8} {offset : Nat}
    (h : ((Cursor.ofString source).scanAt n).refused = some (b, offset)) :
    BeginsAt (utf8 source) n b offset ∧ ((tokenize source).getD n .eof).kind = .illegal := by
  have hbegins := (Cursor.inFront_ofString source).beginsAt_scanAt h
  rw [Nat.zero_add] at hbegins
  refine ⟨hbegins, ?_⟩
  rw [← scanAt_ofString, ← Cursor.scanAt_refused_isSome_iff, h]
  rfl

variable {log before after : List Event}

/-- As many moves as there are tokens lead over all of them, and one move more leads to the end again. -/
theorem Told.visited_eq {q : Prop} [Decidable q] (h : Told (.ofString source) k log)
    (hk : k = (Cursor.ofString source).tokens.length + if q then 1 else 0) :
    log.filterMap Event.visited? = (tokenize source).tail ++ if q then [.eof] else [] := by
  have hlength := length_tokenize source
  have hmoves : (List.range (Cursor.ofString source).tokens.length).map
      (fun i => ((Cursor.ofString source).scanAt (i + 1)).token) = (tokenize source).tail := by
    rw [map_scanAt (Nat.le_of_eq hlength.symm)]
    exact List.take_of_length_le (by rw [List.length_tail]; omega)
  rw [h.visited, hk]
  by_cases hq : q
  · rw [if_pos hq, if_pos hq, List.range_succ, List.map_append, hmoves, List.map_singleton,
      scanAt_ofString, List.getD_eq_getElem?_getD, List.getElem?_eq_none (Nat.le_of_eq hlength)]
    rfl
  · rw [if_neg hq, if_neg hq, Nat.add_zero, hmoves, List.append_nil]

/-- Once all tokens have been read, the bytes refused are those of the illegal tokens. -/
theorem Told.forall₂_refused (h : Told (.ofString source) k log) (hk : (tokenize source).length ≤ k + 2) :
    List.Forall₂ (fun k r => BeginsAt (utf8 source) k r.1 r.2)
      ((List.range (tokenize source).length).filter fun k =>
        ((tokenize source).getD k .eof).kind = .illegal)
      (log.filterMap Event.refused?) := by
  rw [h.refused, ← filter_illegal hk]
  refine forall₂_filter_flatMap (fun i => ?_) (fun i r hr => (exists_illegal hr).1) _
  rw [Bool.eq_iff_iff, decide_eq_true_iff, Cursor.scanAt_refused_isSome_iff, scanAt_ofString]

theorem Told.exists_placed (h : Told (.ofString source) k log) {b : UInt8} {offset : Nat}
    (heq : log = before ++ .illegalByte b offset :: after) :
    ∃ k, BeginsAt (utf8 source) k b offset ∧ ((tokenize source).getD k .eof).kind = .illegal ∧
      (k ≤ 1 → ∀ event ∈ before, event.refused?.isSome = true) ∧
      (2 ≤ k → before.filterMap Event.visited? = (tokenize source).tail.take (k - 2) ∧
        after.head? = some (.advanced ((tokenize source).getD (k - 1) .eof))) := by
  obtain ⟨i, hrefused, hplaced⟩ := h.placed heq
  obtain ⟨hbegins, hillegal⟩ := exists_illegal hrefused
  refine ⟨i, hbegins, hillegal, hplaced.early, fun hi => ?_⟩
  obtain ⟨hbefore, hafter⟩ := hplaced.late hi
  have hlt := lt_of_illegal hillegal
  rw [map_scanAt (by omega)] at hbefore
  rw [scanAt_ofString] at hafter
  exact ⟨hbefore, hafter⟩

end

namespace Parser

/-- The moves of a program are as many as the tokens, or one more, and its journal tells of them. -/
theorem program_told (dialect : Dialect) (source : String) :
    let t := (start dialect (.ofString source)).program.2
    ∃ k, k = (Cursor.ofString source).tokens.length +
        (if .noOperand .eof ∈ t.diagnostics then 1 else 0) ∧
      Told (.ofString source) k t.journal.toList := by
  intro t
  have hloop := (start dialect (.ofString source)).loop_statements
  obtain ⟨ds, hexhausts⟩ := hloop.exhausts (reads_start dialect (.ofString source))
  obtain ⟨k, hrecorded⟩ := hloop.recorded (recorded_start dialect (.ofString source))
  refine ⟨k, ?_, ?_⟩
  · have hds : t.diagnostics.toList = ds := hexhausts.diagnostics
    have hmoves := congrArg List.length hrecorded.told.visited
    rw [List.length_map, List.length_range] at hmoves
    have hvisited := hmoves.symm.trans hexhausts.visited
    rw [visited_start, List.length_nil, Nat.zero_add, ← hds] at hvisited
    simpa only [Array.mem_toList_iff] using hvisited
  · rw [show t.journal.toList = _ from journal_note _ _]
    exact hrecorded.told.note rfl rfl

/-- The coarse notes of a program. -/
theorem program_coarse (dialect : Dialect) (source : String) :
    let read := (start dialect (.ofString source)).program
    read.2.journal.toList.filter (·.level = .debug) = read.2.diagnostics.toList.map .syntaxError ++
      [.finished read.1.statements.length read.2.diagnostics.size] := by
  intro read
  have hloop := (start dialect (.ofString source)).loop_statements
  obtain ⟨k, hrecorded⟩ := hloop.recorded (recorded_start dialect (.ofString source))
  rw [show read.2.journal.toList = _ from journal_note _ _, List.filter_append, hrecorded.coarse]
  rfl

/-- The attempts of a program. -/
theorem program_attempted (dialect : Dialect) (source : String) :
    let read := (start dialect (.ofString source)).program
    read.2.attempted.length = read.1.statements.length + read.2.diagnostics.size := by
  intro read
  obtain ⟨ds, hds, hlength⟩ := (start dialect (.ofString source)).loop_statements.attempts
  have hdiagnostics : read.2.diagnostics = ds := hds.trans Array.empty_append
  rw [attempted_start, List.length_nil, Nat.zero_add] at hlength
  rw [hdiagnostics, show read.2.attempted = _ from attempted_note _ _, List.length_append]
  exact hlength

/-- A line of a byte stands where the note of the byte does. -/
theorem exists_placed_line {source : String} {k : Nat} {t : Parser}
    (h : Told (.ofString source) k t.journal.toList) {before after : List (Level × String)}
    {line : Level × String} (heq : t.log .trace = before ++ line :: after)
    (hline : line.2.startsWith "illegal byte " = true) :
    ∃ k b offset, BeginsAt (utf8 source) k b offset ∧ line = byteLine b offset ∧
      ((tokenize source).getD k .eof).kind = .illegal ∧
      (k ≤ 1 → ∀ other ∈ before, other.2.startsWith "illegal byte " = true) ∧
      (2 ≤ k → before.filter (·.2.startsWith "advanced to ") =
          ((tokenize source).tail.take (k - 2)).map moveLine ∧
        after.head? = some (moveLine ((tokenize source).getD (k - 1) .eof))) := by
  rw [log_trace] at heq
  obtain ⟨front, rest, hjournal, rfl, hrest⟩ := List.map_eq_append_iff.mp heq
  obtain ⟨event, back, rfl, rfl, rfl⟩ := List.map_eq_cons_iff.mp hrest
  have hrefused := (startsWith_byteLine_iff event).mp hline
  cases event with
  | illegalByte b offset =>
      obtain ⟨k, hbegins, hillegal, hearly, hlate⟩ := h.exists_placed hjournal
      refine ⟨k, b, offset, hbegins, rfl, hillegal, fun hk other hother => ?_, fun hk => ?_⟩
      · obtain ⟨event, hevent, rfl⟩ := List.mem_map.mp hother
        exact (startsWith_byteLine_iff event).mpr (hearly hk event hevent)
      · obtain ⟨hbefore, hafter⟩ := hlate hk
        rw [filter_moveLine, hbefore, List.head?_map, hafter]
        exact ⟨rfl, rfl⟩
  | advanced | statement | operator | syntaxError | finished => exact nomatch hrefused

/-- **The log tells what has happened.** A line tells its event. In whatever dialect, the lines of a program
    are those of its moves, each of them once and in order, those of the bytes refused, each in front of the
    move that has read it, as many attempts as there are statements and diagnostics, and one for each
    diagnostic. The last one sums up. -/
theorem program_chronicled :
    (∀ event other : Event, event.line = other.line ↔ event = other) ∧
    ∀ (dialect : Dialect) (source : String),
      let read := (start dialect (.ofString source)).program
      Chronicle source read.1 read.2 := by
  refine ⟨fun event other => ⟨Event.line_inj, congrArg Event.line⟩, fun dialect source => ?_⟩
  intro read
  obtain ⟨k, hk, htold⟩ := program_told dialect source
  -- All tokens have been read, since the moves are at least as many.
  have hall : (tokenize source).length ≤ k + 2 := by
    rw [length_tokenize]
    omega
  constructor
  · rw [linesOf, log_trace, filter_moveLine, htold.visited_eq hk]
  · rw [linesOf, log_trace, filter_byteLine, List.forall₂_map_right_iff]
    exact (htold.forall₂_refused hall).imp fun _ r hr => ⟨r.1, r.2, hr, rfl⟩
  · intro before line after heq hline
    exact exists_placed_line htold heq hline
  · rw [linesOf, log_trace, filter_statementLine, List.length_map]
    exact program_attempted dialect source
  · rw [log_trace, List.filter_map]
    refine (congrArg (List.map Event.line) (program_coarse dialect source)).trans ?_
    rw [List.map_append, List.map_map]
    rfl
  · exact log_debug _
  · rw [log_trace, List.getLast?_map, show read.2.journal.toList = _ from journal_note _ _,
      List.getLast?_concat]
    rfl

/-- The stray byte is the third token, and is shown in front of the move to the second. -/
example : ((parse "a b $").2.log .trace).take 3 =
    [(.trace, "statement starting at IDENT"), (.trace, "illegal byte 0x24 at offset 4"),
      (.trace, "advanced to IDENT(\"b\")")] := by
  decide +kernel

end Parser

end LetLang
