import LetLang.Proofs.Recovery
import LetLang.Proofs.Viability

/-!
# `LetLang.Proofs.Offences` — tokens that are wrong wherever they stand

A stray byte, a token that the language has no use for and an integer out of range belong to no statement.
Whatever the parser makes of the tokens around them, it reports each of them once, in the order of the
source.

An attempt that gives a statement has read no such token, and one that fails has read none in front of the
token that it blames. If that one is an offence, the diagnostic says so and the next attempt begins behind
it. If it has only been looked at, it is not an offence that is reported, and the next attempt begins with
it.

## Contents
- `Kind.unsupported`, `Token.offence?`: the tokens, with the diagnostic that each of them gives.
- `Token.Inner`, `IsStatement.inner`: the tokens that stand within statements.
- `IsProgram.inoffensive`: a program has no offence.
- `Attempt.offences`, `Loop.offences`: one attempt, and all of them.
- `parse_reports_offences`: whole sources.
-/

namespace LetLang

/-! ## Offences -/

/-- The kinds of token that occur in no statement. -/
def Kind.unsupported : List Kind :=
  [illegal, comma, openCurly, closeCurly, fnWord, ifWord, elseWord]

/-- The diagnostic that a token gives wherever it stands, if it gives one: its kind occurs in no
    statement, or it is an integer out of range. -/
def Token.offence? (token : Token) : Option Diagnostic :=
  if token.kind ∈ Kind.unsupported then some (.noOperand token.kind)
  else if token.kind = .int ∧ Text.int64Bound ≤ token.value then some (.badInteger token.text)
  else none

/-- Is the diagnostic about such a token? -/
def Diagnostic.isOffence : Diagnostic → Bool
  | unexpectedToken _ _ => false
  | noOperand kind => kind ∈ Kind.unsupported
  | badInteger _ => true

section

variable {token : Token} {tokens : List Token}

/-- A token of a kind that occurs in statements is no offence, unless it is an integer. -/
theorem offence?_of_kind (h : token.kind ∉ Kind.unsupported) (hint : token.kind ≠ .int) :
    token.offence? = none := by
  rw [Token.offence?, if_neg h, if_neg fun hvalue => hint hvalue.1]

/-- The token can stand within a statement: it is no offence and no semicolon. -/
def Token.Inner (token : Token) : Prop := token.offence? = none ∧ token.kind ≠ .semicolon

theorem inner_of_eq {kind : Kind} (h : token.kind = kind)
    (hkind : kind ∉ Kind.semicolon :: Kind.unsupported) (hint : kind ≠ .int) : token.Inner := by
  obtain ⟨hsemi, hkind⟩ := not_or.mp (mt List.mem_cons.mpr hkind)
  rw [← h] at hsemi hkind hint
  exact ⟨offence?_of_kind hkind hint, hsemi⟩

theorem inner_of_binary (h : token.kind ∈ Kind.binaryOperators) : token.Inner := by
  have hkind : token.kind ∉ Kind.semicolon :: Kind.unsupported ∧ token.kind ≠ .int := by
    revert h
    generalize token.kind = kind
    cases kind <;> decide
  exact inner_of_eq rfl hkind.1 hkind.2

theorem IsPhrase.inner {phrase : Phrase} (h : IsPhrase phrase tokens) :
    ∀ token ∈ tokens, token.Inner := by
  induction h with
  | name h => simpa using inner_of_eq h (by decide) (by decide)
  | @number token h hmax =>
      have hkind : Kind.int ∉ Kind.unsupported := by decide
      simp [Token.Inner, Token.offence?, h, hkind, Nat.not_le.mpr hmax]
  | truth h => rcases h with h | h <;> simpa using inner_of_eq h (by decide) (by decide)
  | group hopen _ hclose ih =>
      have hopen' := inner_of_eq hopen (by decide) (by decide)
      have hclose' := inner_of_eq hclose (by decide) (by decide)
      simpa [hopen', hclose', or_imp, forall_and] using ih
  | bare _ ih | single _ ih => exact ih
  | @unary op _ hop _ ih =>
      have hop' : op.Inner := by
        rcases hop with h | h <;> exact inner_of_eq h (by decide) (by decide)
      simpa [hop'] using ih
  | joined _ hop _ ihleft ihright =>
      simpa [inner_of_binary hop, or_imp, forall_and] using ⟨ihleft, ihright⟩

/-- **No token of a statement is an offence or a semicolon.** -/
theorem IsStatement.inner (h : IsStatement tokens) : ∀ token ∈ tokens, token.Inner := by
  cases h with
  | bind hword hname hsign h =>
      have hword' := inner_of_eq hword (by decide) (by decide)
      have hname' := inner_of_eq hname (by decide) (by decide)
      have hsign' := inner_of_eq hsign (by decide) (by decide)
      simpa [hword', hname', hsign'] using h.inner
  | ret hword h => simpa [inner_of_eq hword (by decide) (by decide)] using h.inner
  | expr h => exact h.inner

theorem IsStatement.inoffensive (h : IsStatement tokens) :
    ∀ token ∈ tokens, token.offence? = none :=
  fun token hmem => (h.inner token hmem).1

/-- **No token of a program is an offence.** -/
theorem IsProgram.inoffensive (h : IsProgram tokens) : ∀ token ∈ tokens, token.offence? = none := by
  induction h with
  | nil => exact List.forall_mem_nil _
  | bare hleft _ ih => simpa [or_imp, forall_and] using ⟨hleft.inoffensive, ih⟩
  | @ended _ _ semi hleft hsemi _ ih =>
      have hsemi' : semi.offence? = none := by
        apply offence?_of_kind <;> rw [hsemi] <;> decide
      simpa [hsemi', or_imp, forall_and] using ⟨hleft.inoffensive, ih⟩

/-- No byte is stray where no token is an offence. -/
theorem kind_ne_illegal (h : token.offence? = none) : token.kind ≠ .illegal := by
  intro hkind
  have hunsupported : token.kind ∈ Kind.unsupported := by
    rw [hkind]
    decide
  rw [Token.offence?, if_pos hunsupported] at h
  exact nomatch h

theorem filterMap_inoffensive (h : ∀ token ∈ tokens, token.offence? = none) :
    tokens.filterMap Token.offence? = [] :=
  List.filterMap_eq_nil_iff.mpr h

/-- The tokens in front of a mistake are no offences: they can be completed. -/
theorem Completes.inoffensive (h : Completes IsStatement tokens) :
    ∀ token ∈ tokens, token.offence? = none := by
  obtain ⟨more, _, hmore⟩ := h
  intro token hmem
  exact hmore.inoffensive token (List.mem_append_left more hmem)

end

namespace Parser

variable {s t u : Parser} {tokens rest : List Token} {stmts : List Stmt}

/-! ## One attempt -/

/-- A token that no operand begins with is reported as an offence exactly if it is one. -/
theorem offence?_of_noOperand {last : Token} (hdialect : t.dialect = .standard)
    (h : t.dialect.operand last.kind = none) :
    last.offence?.toList = [Diagnostic.noOperand last.kind].filter Diagnostic.isOffence := by
  have hint : last.kind ≠ .int := by
    intro heq
    rw [hdialect, heq] at h
    exact nomatch h
  by_cases hkind : last.kind ∈ Kind.unsupported
  · simp [Token.offence?, Diagnostic.isOffence, hkind]
  · simp [offence?_of_kind hkind hint, Diagnostic.isOffence, hkind]

/-- An integer that cannot be read is out of range. -/
theorem offence?_of_badInteger {text : String} (hspelled : Token.Spelled ⟨.int, text⟩)
    (h : Text.readInt64? text = none) :
    Token.offence? ⟨.int, text⟩ = some (.badInteger text) := by
  have hlarge := Text.int64Bound_le_of_readInt64? (hspelled.isNumeral rfl) h
  have hkind : Kind.int ∉ Kind.unsupported := by decide
  simp [Token.offence?, Token.value, hkind, hlarge]

/-- Where a parser halts at a token, the token is an offence if the diagnostic is about one. -/
theorem Halts.offence?_eq {d : Diagnostic} (h : t.Halts d) (hdialect : t.dialect = .standard)
    (hd : d.lookahead = 0) (ht : t.Reads rest) :
    (rest.take 1).filterMap Token.offence? = [d].filter Diagnostic.isOffence := by
  obtain ⟨_, hfits⟩ := h
  cases rest with
  | nil =>
      have heof := ht.current_kind_eq_eof_iff.mpr rfl
      cases d with
      | unexpectedToken => exact nomatch hd
      | noOperand kind =>
          rw [← hfits.1, heof]
          rfl
      | badInteger text => exact absurd heof (current_kind_ne_eof hfits.2.2)
  | cons last rest =>
      have hone : ((last :: rest).take 1).filterMap Token.offence? = last.offence?.toList := by
        cases hlast : last.offence? <;> simp [hlast]
      rw [hone]
      cases d with
      | unexpectedToken => exact nomatch hd
      | noOperand kind =>
          obtain ⟨hcurrent, hnone⟩ := hfits
          rw [ht.current_eq] at hcurrent
          rw [← hcurrent] at hnone ⊢
          exact offence?_of_noOperand hdialect hnone
      | badInteger text =>
          have hcurrent := current_of_badInteger hfits hdialect
          rw [ht.current_eq] at hcurrent
          have hspelled := ht.first_spelled
          rw [hcurrent] at hspelled ⊢
          rw [offence?_of_badInteger hspelled hfits.2.1]
          rfl

/-- **An attempt reports the offences among its tokens.** -/
theorem Attempt.offences {event : Event} {result : Option Stmt}
    (h : Attempt s.rule (s.note event) result t) (hdialect : s.dialect = .standard)
    (hs : s.Reads tokens) (hne : s.current.kind ≠ .eof) :
    ∃ taken rest ds, tokens = taken ++ rest ∧ t.advance.Reads rest ∧
      t.diagnostics.toList = s.diagnostics.toList ++ ds ∧
      ds.filter Diagnostic.isOffence = taken.filterMap Token.offence? := by
  have haccounts := h.accounts
  cases result with
  | some stmt =>
      obtain ⟨taken, ending, rest, rfl, hstmt, hends, ht⟩ := h.sound_note hdialect hs hne
      have hsame : t.diagnostics = s.diagnostics := haccounts
      have hprogram : IsProgram (taken ++ ending) := by
        simpa using IsProgram.cons hstmt.isStatement hends .nil
      refine ⟨taken ++ ending, rest, [], (List.append_assoc ..).symm, ht.advance, by simp [hsame], ?_⟩
      rw [filterMap_inoffensive hprogram.inoffensive, List.filter_nil]
  | none =>
      obtain ⟨_, d, hhalts⟩ := h.lands hne
      have hviable : Attempt (s.note event).rule (s.note event) none t := h
      obtain ⟨taken, rest, rfl, ⟨d', seen, hback, hseen, ht⟩, hcompletes⟩ :=
        hviable.viable hdialect (hs.note event) hne
      obtain rfl : d' = d := Option.some.inj (hback.symm.trans hhalts.1)
      have hpush : t.diagnostics = s.diagnostics.push d' := hhalts.diagnostics_eq haccounts
      have hlist : t.diagnostics.toList = s.diagnostics.toList ++ [d'] := by simp [hpush]
      have hnone : taken.filterMap Token.offence? = [] := filterMap_inoffensive hcompletes.inoffensive
      cases hlook : d'.lookahead with
      | zero =>
          -- The parser stands at the token to blame, and moves over it.
          obtain rfl := List.length_eq_zero_iff.mp (hseen.trans hlook)
          have ht : t.Reads rest := ht
          have hsplit : rest = rest.take 1 ++ rest.tail := by
            rw [← List.drop_one, List.take_append_drop]
          refine ⟨taken ++ rest.take 1, rest.tail, [d'], ?_, ht.advance, hlist, ?_⟩
          · rw [List.append_assoc, ← hsplit]
          · rw [List.filterMap_append, hnone, List.nil_append,
              hhalts.offence?_eq (h.dialect_eq.trans hdialect) hlook ht]
      | succ n =>
          -- The token to blame comes next, and the parser moves on to it.
          cases d' with
          | noOperand | badInteger => exact nomatch hlook
          | unexpectedToken expected got =>
              obtain ⟨last, rfl⟩ := List.length_eq_one_iff.mp hseen
              exact ⟨taken, rest, [.unexpectedToken expected got], rfl, ht.advance, hlist, by
                rw [hnone]; rfl⟩

/-! ## All attempts -/

/-- **The loop reports the offences among its tokens**, each once and in order. -/
theorem Loop.offences (h : Loop s stmts u) (hdialect : s.dialect = .standard)
    (hs : s.Reads tokens) :
    u.diagnostics.toList.filter Diagnostic.isOffence =
      s.diagnostics.toList.filter Diagnostic.isOffence ++ tokens.filterMap Token.offence? := by
  induction h generalizing tokens with
  | done heof =>
      obtain rfl := hs.current_kind_eq_eof_iff.mp heof
      simp
  | @step s t u result stmts hne hattempt hloop ih =>
      obtain ⟨taken, rest, ds, rfl, ht, hdiagnostics, hoffences⟩ :=
        hattempt.offences hdialect hs hne
      have hmore := ih (hattempt.dialect_eq.trans hdialect) ht
      have hsame : t.advance.diagnostics = t.diagnostics := rfl
      rw [hmore, hsame, hdiagnostics, List.filter_append, hoffences, List.append_assoc,
        ← List.filterMap_append]

end Parser

/-- **Stray bytes, tokens without a use and integers out of range are each reported exactly once**, in the
    order of the source and whatever stands around them. -/
theorem parse_reports_offences (source : String) :
    (parse source).2.diagnostics.toList.filter Diagnostic.isOffence =
      (tokenize source).filterMap Token.offence? := by
  have hs := Parser.reads_start .standard (.ofString source)
  have hloop := (Parser.start .standard (.ofString source)).loop_statements.offences rfl hs
  have heof : [Token.eof].filterMap Token.offence? = [] := rfl
  rw [tokenize, List.filterMap_append, heof, List.append_nil]
  exact hloop

/-- Stray bytes, a word without a use and an integer out of range, amid mistakes of other kinds. -/
example :
    (parse "let # = fn 9223372036854775808 ) @").2.diagnostics.toList.filter Diagnostic.isOffence =
      [.noOperand .illegal, .noOperand .fnWord, .badInteger "9223372036854775808",
        .noOperand .illegal] := by
  decide +kernel

end LetLang
