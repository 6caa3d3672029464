import LetLang.Proofs.Coherence
import LetLang.Proofs.Grouping
import LetLang.Proofs.Viability
import Mathlib.Data.List.Forall2

/-!
# `LetLang.Proofs.Justification` — every diagnostic has its reason in the source

An attempt fails at one place, and its diagnostic says what was wrong there. Whether that is so can be seen
from two things: the tokens that the attempt has consumed, and the one behind them. A name is missed behind
a lone `let`, and an equals sign behind `let` and a name. A closing parenthesis is missed behind an opening
one and an expression. The expression has ended there, so no operator follows; and what stands within it is
closed, so the parenthesis in front of it is not.

The rules for expressions hand a failure on from any depth, and what they have consumed in front of it is
put in front of the rest. So what is known about the end of the tokens is known wherever the failure comes
to (`Run.awaits`).

## Contents
- `openGroups`: the groups that some tokens leave open, with `IsPhrase.openGroups_eq`.
- `Diagnostic.JustifiedBy`: a diagnostic, the tokens of the attempt, and the kind of the token behind them.
- `Parser.EndsInGroup`, `Run.awaits`: where a closing parenthesis is missed.
- `Attempt.justified`: one attempt.
- `Parser.fronts`, `Parser.FailsWith`: the parsers at which the loop attempts statements, and an attempt
  that fails.
- `diagnostics_justified`: all diagnostics of a source.
-/

namespace LetLang

/-! ## Groups -/

/-- The groups that are open behind some tokens, if `n` are open in front of them. A closing parenthesis
    closes the last group that is open, if there is one. -/
def openGroups (n : Nat) : List Token → Nat
  | [] => n
  | token :: rest =>
    if token.kind = .openParen then openGroups (n + 1) rest
    else if token.kind = .closeParen then openGroups (n - 1) rest
    else openGroups n rest

section

variable {n : Nat} {token : Token} {tokens rest : List Token}

theorem openGroups_append : openGroups n (tokens ++ rest) = openGroups (openGroups n tokens) rest := by
  induction tokens generalizing n with
  | nil => rfl
  | cons token tokens ih =>
      rw [List.cons_append, openGroups, openGroups]
      split
      · exact ih
      split
      · exact ih
      · exact ih

theorem openGroups_open (h : token.kind = .openParen) :
    openGroups n (token :: rest) = openGroups (n + 1) rest := by
  rw [openGroups, if_pos h]

theorem openGroups_close (h : token.kind = .closeParen) :
    openGroups n (token :: rest) = openGroups (n - 1) rest := by
  rw [openGroups, if_neg (by simp [h]), if_pos h]

theorem openGroups_other {kind : Kind} (h : token.kind = kind)
    (hkind : kind ≠ .openParen ∧ kind ≠ .closeParen) :
    openGroups n (token :: rest) = openGroups n rest := by
  subst h
  rw [openGroups, if_neg hkind.1, if_neg hkind.2]

/-- **A phrase closes the groups that it opens**, and no others. -/
theorem IsPhrase.openGroups_eq {phrase : Phrase} (h : IsPhrase phrase tokens) (n : Nat) :
    openGroups n tokens = n := by
  induction h generalizing n with
  | name h | number h => exact openGroups_other h (by decide)
  | truth h => rcases h with h | h <;> exact openGroups_other h (by decide)
  | group hopen _ hclose ih =>
      rw [openGroups_open hopen, openGroups_append, ih, openGroups_close hclose]
      rfl
  | bare _ ih | single _ ih => exact ih n
  | unary hop _ ih => rcases hop with h | h <;> exact (openGroups_other h (by decide)).trans (ih n)
  | @joined op _ _ _ hop _ ihleft ihright =>
      have hkind : op.kind ≠ .openParen ∧ op.kind ≠ .closeParen := by
        revert hop
        generalize op.kind = kind
        cases kind <;> decide
      rw [openGroups_append, ihleft, openGroups_other rfl hkind, ihright]

end

/-! ## Reasons -/

/-- The diagnostic is justified if an attempt has consumed the tokens `tokens` and a token of kind `next`
    comes behind them. -/
inductive Diagnostic.JustifiedBy (tokens : List Token) (next : Kind) : Diagnostic → Prop where
  /-- Nothing has been consumed but `let`, and no name follows. -/
  | name (h : tokens = [⟨.letWord, "let"⟩]) (hnext : next ≠ .ident) :
      JustifiedBy tokens next (.unexpectedToken .ident next)
  /-- Behind `let` and a name there is no equals sign. -/
  | sign {name : String} (h : tokens = [⟨.letWord, "let"⟩, ⟨.ident, name⟩]) (hnext : next ≠ .assign) :
      JustifiedBy tokens next (.unexpectedToken .assign next)
  /-- A group is open. It is not closed here, and the expression in it is not carried on. -/
  | close (h : 0 < openGroups 0 tokens) (hnext : next ≠ .closeParen)
      (hoperator : next ∉ Kind.binaryOperators) :
      JustifiedBy tokens next (.unexpectedToken .closeParen next)
  /-- No expression begins with the last of the tokens. -/
  | noOperand {last : Token} (h : tokens.getLast? = some last) (hkind : last.kind ∉ Kind.openers) :
      JustifiedBy tokens next (.noOperand last.kind)
  /-- The last of the tokens is an integer out of range. -/
  | badInteger {text : String} (h : tokens.getLast? = some ⟨.int, text⟩)
      (hnumeral : Text.IsNumeral text) (hlarge : Text.int64Bound ≤ Text.digitsValue text.toList) :
      JustifiedBy tokens next (.badInteger text)

/-- The one piece of advice that speaks of `let` is given for names. -/
theorem Diagnostic.eq_of_tip {d : Diagnostic}
    (h : d.tip = .suggestion "`let` must be followed by a name") :
    ∃ got, d = .unexpectedToken .ident got := by
  cases d with
  | unexpectedToken expected got =>
      cases expected with
      | ident => exact ⟨got, rfl⟩
      | _ => exact absurd (Tip.suggestion.inj h) (by decide)
  | noOperand kind => cases kind <;> exact absurd (Tip.suggestion.inj h) (by decide)
  | badInteger => exact absurd (Tip.suggestion.inj h) (by decide)

theorem Diagnostic.JustifiedBy.tokens_of_tip {tokens : List Token} {next : Kind} {d : Diagnostic}
    (h : d.JustifiedBy tokens next) (htip : d.tip = .suggestion "`let` must be followed by a name") :
    tokens = [⟨.letWord, "let"⟩] := by
  obtain ⟨got, rfl⟩ := Diagnostic.eq_of_tip htip
  cases h with
  | name h => exact h

namespace Parser

variable {s t u : Parser} {moved more tokens taken rest : List Token}

/-! ## Tokens that have been consumed -/

/-- A note of anything but a move changes nothing of what is consumed behind it. -/
theorem consumed_note {event : Event} (h : event.visited? = none) :
    (s.note event).consumed t = s.consumed t := by
  rw [consumed, consumed, visited_note, h, Option.toList_none, List.append_nil]
  rfl

/-- The parser stands at the last token that it has consumed. -/
theorem Moved.consumed_eq_concat (h : s.Moved moved t) :
    s.consumed t = (List.range moved.length).map s.tokenAt ++ [t.current] := by
  have hlast : t.current = s.tokenAt moved.length := by
    have hahead := h.ahead 0
    rwa [Nat.zero_add] at hahead
  rw [h.consumed_eq, ← h.map_tokenAt, List.range_succ, List.map_append, hlast]
  rfl

/-- What is consumed later is the end of all that is consumed. -/
theorem Moved.consumed_suffix (hst : s.Moved moved t) (htu : t.Moved more u) :
    t.consumed u <:+ s.consumed u := by
  have hfront := hst.consumed_eq_concat
  rw [hst.consumed_eq] at hfront
  refine ⟨(List.range moved.length).map s.tokenAt, ?_⟩
  rw [htu.consumed_eq, (hst.trans htu).consumed_eq, ← List.cons_append, hfront, ← List.append_cons]

/-- **What has been consumed are the first of the tokens in front of the parser**, up to the one where it
    stands. -/
theorem Paced.consumed_eq (h : s.Paced t) (hst : s.Moved moved t) (hs : s.Reads tokens) :
    ∃ taken rest, tokens = taken ++ rest ∧ t.Reads rest ∧ s.consumed t = taken ++ [t.current] := by
  obtain ⟨taken, rest, rfl, ht, hvisited⟩ := h hs
  have hlength : moved.length = taken.length := by
    rw [hst.visited, List.length_append] at hvisited
    omega
  have htaken : (List.range taken.length).map s.tokenAt = taken := by
    apply List.ext_getElem
    · simp
    · intro i _ hi
      simp [hs.tokenAt_eq, List.getElem?_append_left hi, hi]
  refine ⟨taken, rest, rfl, ht, ?_⟩
  rw [hst.consumed_eq_concat, hlength, htaken]

/-! ## Groups that are not closed -/

/-- The tokens end with an opening parenthesis and an expression behind it. -/
def EndsInGroup (tokens : List Token) : Prop :=
  ∃ opening inner, opening :: inner <:+ tokens ∧ opening.kind = .openParen ∧ IsPhrase .expression inner

/-- Such tokens leave a group open, whatever stands in front of it. -/
theorem EndsInGroup.openGroups_pos (h : EndsInGroup tokens) (n : Nat) : 0 < openGroups n tokens := by
  obtain ⟨opening, inner, ⟨front, rfl⟩, hopen, hinner⟩ := h
  rw [openGroups_append, openGroups_open hopen, hinner.openGroups_eq]
  exact Nat.succ_pos _

/-- If the last diagnostic misses a kind of token, it is the closing parenthesis of a group: what has been
    consumed ends in one, and the token that has come instead is no operator. -/
def Awaits (s t : Parser) : Prop :=
  ∀ expected got, t.diagnostics.back? = some (.unexpectedToken expected got) →
    expected = .closeParen ∧ got ∉ Kind.binaryOperators ∧ EndsInGroup (s.consumed t)

theorem eq_of_back?_report {d d' : Diagnostic} (h : (t.report d).diagnostics.back? = some d') :
    d = d' :=
  Option.some.inj (Array.back?_push.symm.trans h)

theorem awaits_report {d : Diagnostic} (h : d.lookahead = 0) : s.Awaits (t.report d) := by
  intro expected got hback
  obtain rfl := eq_of_back?_report hback
  exact nomatch h

/-- More tokens in front change nothing. -/
theorem Awaits.after (h : t.Awaits u) (hst : s.Moved moved t) (htu : ∃ more, t.Moved more u) :
    s.Awaits u := by
  obtain ⟨more, htu⟩ := htu
  intro expected got hback
  obtain ⟨hexpected, hgot, opening, inner, hsuffix, hgroup⟩ := h expected got hback
  exact ⟨hexpected, hgot, opening, inner, hsuffix.trans (hst.consumed_suffix htu), hgroup⟩

/-- No operator comes behind an expression that has ended. -/
theorem not_mem_binaryOperators (h : ¬GoesOn .lowest rest) :
    (rest.headD .eof).kind ∉ Kind.binaryOperators := by
  intro hmem
  cases rest with
  | nil => exact absurd hmem (by decide)
  | cons op rest =>
      obtain ⟨tier, htier⟩ := Tier.exists_of_mem hmem
      refine h ((goesOn_cons_iff htier).mpr ?_)
      cases tier <;> decide

/-- **A group that is not closed**: its expression has ended, and the parser stands at the last token of
    it. -/
theorem awaits_groupOpen {inner : Expr} (hdialect : s.dialect = .standard)
    (hrule : s.dialect.operand s.current.kind = some .group) (hs : s.Reads tokens)
    (h : Run (.expression .lowest) s.advance (some inner) t) :
    s.Awaits (t.report (.unexpectedToken .closeParen t.peek.kind)) := by
  intro expected got hback
  obtain ⟨rfl, rfl⟩ := Diagnostic.unexpectedToken.inj (eq_of_back?_report hback)
  obtain ⟨rest, rfl⟩ := hs.exists_cons (current_kind_ne_eof hrule)
  obtain ⟨taken, rest, rfl, ht, hstop, hderives⟩ := h.sound hdialect inner rfl _ hs.advance
  obtain ⟨more, hst⟩ := h.exists_moved
  have hpaced := (h.lands trivial).1
  -- Two ways of cutting the tokens at the place where the parser stands.
  obtain ⟨front, behind, heq, hbehind, hconsumed⟩ := hpaced.consumed_eq hst hs.advance
  obtain ⟨last, hlast⟩ := ht
  obtain rfl := hbehind.unique hlast
  rw [hlast.current_eq] at hconsumed
  have htaken : taken = front ++ [last] := by
    rw [List.append_cons] at heq
    exact List.append_cancel_right heq
  have hall : s.consumed (t.report (.unexpectedToken .closeParen t.peek.kind)) = s.current :: taken := by
    rw [((s.moved_advance.trans hst).trans (moved_report t _)).consumed_eq, htaken, ← hconsumed,
      hst.consumed_eq]
    simp only [List.append_nil, List.singleton_append]
    rfl
  refine ⟨rfl, ?_, s.current, taken, ⟨[], hall.symm⟩, kind_of_group hdialect hrule, hderives.isPhrase⟩
  rw [hlast.before.peek_eq]
  exact not_mem_binaryOperators hstop

/-- **A call that fails misses nothing but the end of a group.** -/
theorem Run.awaits {call : Call} {result : Option Expr} (h : Run call s result t) :
    s.dialect = .standard → Ready call s → (∃ tokens, s.Reads tokens) → result = none → s.Awaits t := by
  induction h with
  | identifier | integer | boolean | unary | group | stop | join => exact fun _ _ _ => nofun
  | noOperand | badInteger => exact fun _ _ _ _ => awaits_report rfl
  | operandFails hrule _ ih => exact fun hdialect _ hs => ih hdialect hrule hs
  | operandThen hrule hoperand hclimb _ ih =>
      rintro hdialect _ ⟨tokens, hs⟩ hnone
      obtain ⟨moved, hst⟩ := hoperand.exists_moved
      obtain ⟨rest, _, ht⟩ := hoperand.onward hs
      have hstands := (hoperand.lands hrule).2
      exact (ih (hoperand.dialect_eq.trans hdialect) hstands ⟨rest, ht⟩ hnone).after hst
        hclimb.exists_moved
  | unaryFails h ih | groupFails h ih | joinFails h ih =>
      rintro hdialect _ ⟨tokens, hs⟩ hnone
      exact (ih hdialect trivial ⟨_, hs.advance⟩ hnone).after (moved_advance _) h.exists_moved
  | groupOpen h _ _ =>
      rintro hdialect hrule ⟨tokens, hs⟩ _
      exact awaits_groupOpen hdialect hrule hs h
  | climbFails h hjoin ih =>
      rintro hdialect _ ⟨tokens, hs⟩ hnone
      exact (ih hdialect (ready_join h.2) ⟨_, hs.advance.note _⟩ hnone).after (moved_takeOperator _)
        hjoin.exists_moved
  | climb h hjoin hclimb _ ih =>
      rintro hdialect _ ⟨tokens, hs⟩ hnone
      obtain ⟨moved, hst⟩ := hjoin.exists_moved
      obtain ⟨rest, _, ht⟩ := hjoin.onward (hs.advance.note _)
      have hstands := (hjoin.lands (ready_join h.2)).2
      exact (ih (hjoin.dialect_eq.trans hdialect) hstands ⟨rest, ht⟩ hnone).after
        ((moved_takeOperator _).trans hst) hclimb.exists_moved

/-! ## One attempt -/

theorem Attempt.exists_moved {rule : StatementRule} (h : Attempt rule s none t) :
    ∃ moved, s.Moved moved t := by
  cases h with
  | bindNoName => exact ⟨_, moved_report s _⟩
  | bindNoSign => exact ⟨_, s.moved_advance.trans (moved_report _ _)⟩
  | bindFails _ _ h =>
      obtain ⟨moved, hst⟩ := h.exists_moved
      exact ⟨_, ((s.moved_advance.trans (moved_advance _)).trans (moved_advance _)).trans hst⟩
  | retFails h =>
      obtain ⟨moved, hst⟩ := h.exists_moved
      exact ⟨_, s.moved_advance.trans hst⟩
  | exprFails h => exact h.exists_moved

/-- What an attempt has missed: a name or a sign at its beginning, or else the end of a group. -/
theorem Attempt.justified_unexpectedToken {expected got : Kind} (h : Attempt s.rule s none t)
    (hdialect : s.dialect = .standard) (hs : s.Reads tokens) (hne : s.current.kind ≠ .eof)
    (hback : t.diagnostics.back? = some (.unexpectedToken expected got)) (hgot : got ≠ expected) :
    (Diagnostic.unexpectedToken expected got).JustifiedBy (s.consumed t) got := by
  obtain ⟨rest, rfl⟩ := hs.exists_cons hne
  -- A failure within the value goes back to a group, wherever the value begins.
  have hvalue {u : Parser} {moved : List Token} (hsu : s.Moved moved u) (hu : ∃ tokens, u.Reads tokens)
      (h : Run (.expression .lowest) u none t) :
      (Diagnostic.unexpectedToken expected got).JustifiedBy (s.consumed t) got := by
    have hawaits := (h.awaits (hsu.dialect.trans hdialect) trivial hu rfl).after hsu h.exists_moved
    obtain ⟨rfl, hoperator, hends⟩ := hawaits expected got hback
    exact .close (hends.openGroups_pos 0) hgot hoperator
  have hlet (hrule : s.rule = .bind) : s.current = ⟨.letWord, "let"⟩ :=
    hs.first_spelled.eq_of_word (by decide) ((kind_of_rule hdialect).1 hrule)
  have hadvance := hs.advance
  generalize hrule : s.rule = rule at h
  cases h with
  | bindNoName =>
      obtain ⟨rfl, rfl⟩ := Diagnostic.unexpectedToken.inj (eq_of_back?_report hback)
      refine .name ?_ hgot
      rw [(moved_report s _).consumed_eq, hlet hrule]
  | bindNoSign hname =>
      obtain ⟨rfl, rfl⟩ := Diagnostic.unexpectedToken.inj (eq_of_back?_report hback)
      have hpeek : s.peek = ⟨.ident, s.peek.text⟩ := by rw [← hname]
      have htokens : s.consumed (s.advance.report (.unexpectedToken .assign s.advance.peek.kind)) =
          [⟨.letWord, "let"⟩, ⟨.ident, s.peek.text⟩] := by
        rw [(s.moved_advance.trans (moved_report s.advance _)).consumed_eq, hlet hrule, ← hpeek]
        rfl
      exact .sign htokens hgot
  | bindFails _ _ h =>
      exact hvalue ((s.moved_advance.trans (moved_advance _)).trans (moved_advance _))
        ⟨_, hadvance.advance.advance⟩ h
  | retFails h => exact hvalue s.moved_advance ⟨_, hadvance⟩ h
  | exprFails h => exact hvalue (Moved.refl s) ⟨_, hs⟩ h

/-- No expression of the language begins with a token that has no rule for operands. -/
theorem not_mem_openers {kind : Kind} (h : Dialect.standard.operand kind = none) :
    kind ∉ Kind.openers := by
  revert h
  cases kind <;> decide

/-- **An attempt that fails is justified in doing so**, by what it has consumed and what comes next. -/
theorem Attempt.justified (h : Attempt s.rule s none t) (hdialect : s.dialect = .standard)
    (hs : s.Reads tokens) (hne : s.current.kind ≠ .eof) :
    ∃ d, t.diagnostics = s.diagnostics.push d ∧ d.JustifiedBy (s.consumed t) t.peek.kind := by
  obtain ⟨_, d, hhalts⟩ := h.lands hne
  have hpush := hhalts.diagnostics_eq h.accounts
  refine ⟨d, hpush, ?_⟩
  obtain ⟨moved, hst⟩ := h.exists_moved
  have hlast : (s.consumed t).getLast? = some t.current := by
    rw [hst.consumed_eq_concat, List.getLast?_concat]
  have htdialect := h.dialect_eq.trans hdialect
  obtain ⟨hback, hfits⟩ := hhalts
  cases d with
  | unexpectedToken expected got =>
      obtain ⟨rfl, hgot, _⟩ := hfits
      exact h.justified_unexpectedToken hdialect hs hne hback hgot
  | noOperand kind =>
      obtain ⟨rfl, hoperand⟩ := hfits
      rw [htdialect] at hoperand
      exact .noOperand hlast (not_mem_openers hoperand)
  | badInteger text =>
      have hcurrent := current_of_badInteger hfits htdialect
      obtain ⟨rest, _, ht⟩ := h.onward hs
      obtain ⟨rest, rfl⟩ := ht.exists_cons (by simp [hcurrent])
      have hspelled := ht.first_spelled
      rw [hcurrent] at hlast hspelled
      have hnumeral : Text.IsNumeral text := hspelled.isNumeral rfl
      exact .badInteger hlast hnumeral (Text.int64Bound_le_of_readInt64? hnumeral hfits.2.1)

/-! ## All attempts -/

/-- The parsers at which the loop attempts statements, up to the end of the source. -/
def fronts (s : Parser) : List Parser :=
  if s.current.kind = .eof then [] else s :: s.statement.2.advance.fronts
termination_by s.todo
decreasing_by exact todo_next_lt ‹_›

/-- The attempt at `s` fails with the diagnostic `d`, for a reason that is found in a source of the tokens
    `all`, which ends with the end token. -/
structure FailsWith (all : List Token) (s : Parser) (d : Diagnostic) : Prop where
  result : s.statement.1 = none
  diagnostics : s.statement.2.diagnostics = s.diagnostics.push d
  /-- The tokens that have been consumed stand side by side, with the next one behind them. -/
  place : ∃ before after, all = before ++ s.consumed s.statement.2 ++ after ∧
    after.headD .eof = s.statement.2.peek
  reason : d.JustifiedBy (s.consumed s.statement.2) s.statement.2.peek.kind

/-- The current token and those behind it, the end among them. -/
theorem Reads.append_eof (h : s.Reads tokens) :
    ∃ after, tokens ++ [.eof] = s.current :: after ∧ after.headD .eof = s.peek := by
  rw [h.current, h.peek]
  cases tokens with
  | nil => exact ⟨[], rfl, rfl⟩
  | cons token rest => exact ⟨rest ++ [.eof], rfl, by cases rest <;> rfl⟩

variable {all : List Token}

theorem failsWith_statement (hnone : s.statement.1 = none) (hdialect : s.dialect = .standard)
    (hs : s.Reads tokens) (hne : s.current.kind ≠ .eof) (hall : tokens ++ [.eof] <:+ all) :
    ∃ d, s.FailsWith all d := by
  have hattempt := s.attempt_statement
  rw [hnone] at hattempt
  -- The note that an attempt begins with changes nothing of what it reads.
  have hfails : Attempt (s.note (.statement s.current.kind)).rule
    (s.note (.statement s.current.kind)) none s.statement.2 := hattempt
  obtain ⟨d, hpush, hreason⟩ := hfails.justified hdialect (hs.note _) hne
  rw [consumed_note rfl] at hreason
  refine ⟨d, hnone, hpush, ?_, hreason⟩
  obtain ⟨moved, hmoved⟩ := hfails.exists_moved
  obtain ⟨taken, rest, rfl, ht, htaken⟩ := (hfails.lands hne).1.consumed_eq hmoved (hs.note _)
  rw [consumed_note rfl] at htaken
  obtain ⟨before, rfl⟩ := hall
  obtain ⟨after, hafter, hpeek⟩ := ht.append_eof
  refine ⟨before, after, ?_, hpeek⟩
  rw [htaken, List.append_assoc taken, hafter]
  simp

/-- **The loop records one diagnostic for each attempt that fails**, and each of them has its reason. -/
theorem fronts_failWith (hdialect : s.dialect = .standard) (hs : s.Reads tokens)
    (hall : tokens ++ [.eof] <:+ all) :
    s.statements.1 = s.fronts.filterMap (fun s => s.statement.1) ∧
      ∃ ds, s.statements.2.diagnostics.toList = s.diagnostics.toList ++ ds ∧
        List.Forall₂ (FailsWith all) (s.fronts.filter fun s => s.statement.1.isNone) ds := by
  induction s using fronts.induct generalizing tokens with
  | case1 s heof =>
      rw [statements, if_pos heof, fronts, if_pos heof]
      exact ⟨rfl, [], (List.append_nil _).symm, .nil⟩
  | case2 s hne ih =>
      have hattempt := s.attempt_statement
      obtain ⟨rest, hrest, ht⟩ := hattempt.onward (hs.note _)
      have hmore : rest.tail ++ [.eof] <:+ all := by
        obtain ⟨front, rfl⟩ := (List.tail_suffix rest).trans hrest
        refine List.IsSuffix.trans ⟨front, ?_⟩ hall
        rw [List.append_assoc]
      obtain ⟨hstmts, ds, hds, hforall⟩ := ih (hattempt.dialect_eq.trans hdialect) ht.advance hmore
      have hsame : s.statement.2.advance.diagnostics = s.statement.2.diagnostics := rfl
      rw [statements, if_neg hne, fronts, if_neg hne]
      cases hresult : s.statement.1 with
      | some stmt =>
          have haccounts := hattempt.accounts
          rw [hresult] at haccounts
          refine ⟨by simp [hresult, hstmts], ds, ?_, by simpa [hresult] using hforall⟩
          rw [hds, hsame, show s.statement.2.diagnostics = s.diagnostics from haccounts]
      | none =>
          obtain ⟨d, hd⟩ := failsWith_statement hresult hdialect hs hne hall
          refine ⟨by simp [hresult, hstmts], d :: ds, ?_, ?_⟩
          · rw [hds, hsame, hd.diagnostics, Array.toList_push, List.append_assoc]
            rfl
          · rw [List.filter_cons_of_pos (by simp [hresult])]
            exact .cons hd hforall

end Parser

/-- The parsers at which statements of a source are attempted. -/
def frontsOf (source : String) : List Parser := (Parser.start .standard (.ofString source)).fronts

/-- **Every diagnostic is justified by its place in the source.** The attempts at statements of a source
    give its program. Those of them that fail have one diagnostic each, in the same order. The tokens that
    such an attempt has consumed and the one behind them stand in the source, and they are the reason for
    its diagnostic. The advice about `let` is given directly behind one only. -/
theorem diagnostics_justified (source : String) :
    (parse source).1.statements = (frontsOf source).filterMap (fun s => s.statement.1) ∧
      List.Forall₂
        (fun s d => s.FailsWith (tokenize source) d ∧
          (d.tip = .suggestion "`let` must be followed by a name" →
            s.consumed s.statement.2 = [⟨.letWord, "let"⟩]))
        ((frontsOf source).filter fun s => s.statement.1.isNone)
        (parse source).2.diagnostics.toList := by
  have hs := Parser.reads_start .standard (.ofString source)
  obtain ⟨hstmts, ds, hds, hforall⟩ := Parser.fronts_failWith rfl hs (List.suffix_refl _)
  have hdiagnostics : (parse source).2.diagnostics.toList = ds := hds
  refine ⟨hstmts, ?_⟩
  rw [hdiagnostics]
  exact hforall.imp fun s d h => ⟨h, h.reason.tokens_of_tip⟩

/-- A name, a sign and the end of a group are missed, in attempts one behind the other. -/
example : (parse "let 1 let a (b").2.diagnostics.toList =
    [.unexpectedToken .ident .int, .unexpectedToken .assign .openParen,
      .unexpectedToken .closeParen .eof] := by
  decide +kernel

end LetLang
