import LetLang.Proofs.Acceptance
import LetLang.Proofs.Agreement
import LetLang.Proofs.Offences
import LetLang.Proofs.Respelling

/-!
# `LetLang.Proofs.Detection` — mistakes are reported as early as they can be

The token that the first diagnostic blames cuts a source in two. What stands in front of it can still be
completed to a source without diagnostics, so it was not too late to report; what ends with it cannot, so
it was not too early. The first is the viability of beginnings, and needs a text for the tokens that
complete them. The second is that a parser which has the same tokens in front of it, up to the one to
blame, takes the same steps.

## Contents
- `Parser.blamed?`: the place of the token that the first diagnostic blames, by the journal.
- `Parser.Silent`, `Parser.Keeps`: nothing has been recorded; what has been recorded stays.
- `IsProgram.exists_source`: every program is the tokens of a source without diagnostics.
- `Parser.Detects`, `Loop.detects`: where the loop records its first diagnostic, and why.
- `parse_reports_earliest`: both parts, for whole sources.
-/

namespace LetLang

/-! ## Sources for programs -/

/-- **Every program can be written**: its tokens, with spaces between them, are a source without
    diagnostics. -/
theorem IsProgram.exists_source {tokens : List Token} (h : IsProgram tokens)
    (hspelled : ∀ token ∈ tokens, token.Spelled) :
    ∃ source, (Cursor.ofString source).tokens = tokens ∧ (parse source).2.diagnostics = #[] := by
  have htokens : (Cursor.ofString (spaced tokens)).tokens = tokens :=
    tokens_spaced fun token hmem =>
      ⟨hspelled token hmem,
        (hspelled token hmem).isAscii (kind_ne_illegal (h.inoffensive token hmem))⟩
  obtain ⟨stmts, hstmts⟩ := h.derives
  rw [← htokens] at hstmts
  exact ⟨spaced tokens, htokens, (parse_of_derives hstmts).2⟩

/-! ## The token to blame -/

/-- Is the event the record of a diagnostic? -/
def Event.isError : Event → Bool
  | syntaxError _ => true
  | _ => false

/-- The token is the one that the diagnostic is about. -/
def Diagnostic.Names (d : Diagnostic) (token : Token) : Prop :=
  match d with
  | unexpectedToken _ got => token.kind = got
  | noOperand kind => token.kind = kind
  | badInteger text => token = ⟨.int, text⟩

namespace Parser

/-- The place of the token that the first diagnostic blames, counted from the first token of the source:
    the parser had moved so many times, and looked so far ahead. -/
def blamed? (s : Parser) : Option Nat :=
  s.diagnostics[0]?.map fun d =>
    ((s.journal.toList.takeWhile (!·.isError)).filterMap Event.visited?).length + d.lookahead

/-- Nothing has been recorded against the source. -/
structure Silent (s : Parser) : Prop where
  diagnostics : s.diagnostics = #[]
  journal : ∀ event ∈ s.journal.toList, event.isError = false

/-- All that has been recorded at `s` is still there at `t`. -/
structure Keeps (s t : Parser) : Prop where
  diagnostics : s.diagnostics.toList <+: t.diagnostics.toList
  journal : s.journal.toList <+: t.journal.toList

variable {s s' t u : Parser} {tokens taken rest : List Token} {stmts : List Stmt}

/-! ## Records -/

theorem isError_scanEvents {scan : Scan} {event : Event} (h : event ∈ (scanEvents scan).toList) :
    event.isError = false := by
  unfold scanEvents at h
  split at h
  · rw [List.mem_singleton.mp h]
    rfl
  · exact absurd h List.not_mem_nil

theorem silent_start (dialect : Dialect) (c : Cursor) : (start dialect c).Silent where
  diagnostics := rfl
  journal event hmem := by
    simp only [start, Array.toList_append, List.mem_append] at hmem
    exact hmem.elim isError_scanEvents isError_scanEvents

theorem Silent.advance (h : s.Silent) : s.advance.Silent where
  diagnostics := h.diagnostics
  journal event hmem := by
    simp only [Parser.advance, Array.toList_push, Array.toList_append, List.mem_append,
      List.mem_singleton] at hmem
    rcases hmem with (hmem | hmem) | rfl
    · exact h.journal event hmem
    · exact isError_scanEvents hmem
    · rfl

theorem Silent.note (h : s.Silent) {event : Event} (hevent : event.isError = false) :
    (s.note event).Silent where
  diagnostics := h.diagnostics
  journal e hmem := by
    simp only [Parser.note, Array.toList_push, List.mem_append, List.mem_singleton] at hmem
    rcases hmem with hmem | rfl
    · exact h.journal e hmem
    · exact hevent

/-- Steps on the way record nothing against the source. -/
theorem Silent.perform {actions : List Action} (h : s.Silent)
    (hquiet : ∀ action ∈ actions, action.Quiet) : (s.perform actions).Silent := by
  induction actions generalizing s with
  | nil => exact h
  | cons action actions ih =>
      have hmore : ∀ a ∈ actions, a.Quiet := fun a ha => hquiet a (List.mem_cons_of_mem _ ha)
      cases hquiet action List.mem_cons_self with
      | advance => exact ih h.advance hmore
      | operator => exact ih (h.note rfl) hmore

theorem Keeps.refl (s : Parser) : s.Keeps s := ⟨List.prefix_refl _, List.prefix_refl _⟩

theorem Keeps.trans (hst : s.Keeps t) (htu : t.Keeps u) : s.Keeps u :=
  ⟨hst.diagnostics.trans htu.diagnostics, hst.journal.trans htu.journal⟩

theorem keeps_advance (s : Parser) : s.Keeps s.advance where
  diagnostics := List.prefix_refl _
  journal := by
    simp only [advance, Array.toList_push, Array.toList_append, List.append_assoc]
    exact List.prefix_append _ _

theorem keeps_note (s : Parser) (event : Event) : s.Keeps (s.note event) where
  diagnostics := List.prefix_refl _
  journal := by
    simp only [note, Array.toList_push]
    exact List.prefix_append _ _

theorem keeps_report (s : Parser) (d : Diagnostic) : s.Keeps (s.report d) where
  diagnostics := by
    simp only [report, Array.toList_push]
    exact List.prefix_append _ _
  journal := by
    simp only [report, Array.toList_push]
    exact List.prefix_append _ _

theorem keeps_perform (s : Parser) (actions : List Action) : s.Keeps (s.perform actions) := by
  induction actions generalizing s with
  | nil => exact Keeps.refl s
  | cons action actions ih =>
      refine Keeps.trans ?_ (ih (s.act action))
      cases action with
      | advance => exact keeps_advance s
      | report d => exact keeps_report s d
      | note event => exact keeps_note s event

theorem Loop.keeps (h : Loop s stmts u) : s.Keeps u := by
  induction h with
  | done => exact Keeps.refl _
  | @step s t u result stmts _ hattempt _ ih =>
      obtain ⟨actions, rfl, _⟩ := hattempt.traced
      exact (((keeps_note s _).trans (keeps_perform _ actions)).trans (keeps_advance _)).trans ih

/-- **The first diagnostic can be read off the records**, whatever has been recorded behind it. -/
theorem Silent.blamed?_eq {d : Diagnostic} (h : s.Silent) (hkeeps : (s.report d).Keeps u) :
    u.diagnostics[0]? = some d ∧ u.blamed? = some (s.visited.length + d.lookahead) := by
  obtain ⟨more, hmore⟩ := hkeeps.diagnostics
  obtain ⟨events, hevents⟩ := hkeeps.journal
  have hfirst : u.diagnostics[0]? = some d := by
    rw [← Array.getElem?_toList, ← hmore]
    simp [report, h.diagnostics]
  refine ⟨hfirst, ?_⟩
  have hquiet : u.journal.toList.takeWhile (!·.isError) = s.journal.toList := by
    rw [← hevents]
    simp only [report, Array.toList_push, List.append_assoc, List.singleton_append]
    rw [List.takeWhile_append_of_pos (by simpa using h.journal),
      List.takeWhile_cons_of_neg (by simp [Event.isError]), List.append_nil]
  rw [blamed?, hfirst, hquiet]
  rfl

/-! ## The attempt that fails first -/

/-- The token that an attempt blames is the one that its diagnostic is about. -/
theorem Halts.names {d : Diagnostic} (h : t.Halts d) (hdialect : t.dialect = .standard)
    {seen : List Token} (hseen : seen.length = d.lookahead) (ht : t.Reads (seen ++ rest)) :
    d.Names (rest.headD .eof) := by
  obtain ⟨_, hfits⟩ := h
  cases d with
  | unexpectedToken expected got =>
      obtain ⟨last, rfl⟩ := List.length_eq_one_iff.mp hseen
      obtain ⟨rfl, _⟩ := hfits
      exact congrArg Token.kind ht.peek.symm
  | noOperand kind =>
      obtain rfl := List.length_eq_zero_iff.mp hseen
      obtain ⟨rfl, _⟩ := hfits
      exact congrArg Token.kind ht.current.symm
  | badInteger text =>
      obtain rfl := List.length_eq_zero_iff.mp hseen
      exact ht.current.symm.trans (current_of_badInteger hfits hdialect)

/-- **Where a failed attempt blames a token**: the tokens in front of it are the beginning of a statement,
    and as many as the parser has moved over and looked ahead. -/
theorem Attempt.blames {event : Event} {d : Diagnostic}
    (h : Attempt s.rule (s.note event) none t) (hdialect : s.dialect = .standard)
    (hs : s.Reads tokens) (hne : s.current.kind ≠ .eof) (hback : t.diagnostics.back? = some d) :
    ∃ taken rest, tokens = taken ++ rest ∧ Completes IsStatement taken ∧
      d.Names (rest.headD .eof) ∧ t.visited.length + d.lookahead =
        (s.note event).visited.length + taken.length := by
  obtain ⟨hpaced, d', hhalts⟩ := h.lands hne
  obtain rfl : d' = d := Option.some.inj (hhalts.1.symm.trans hback)
  have hviable : Attempt (s.note event).rule (s.note event) none t := h
  obtain ⟨taken, rest, rfl, ⟨d, seen, hback', hseen, ht⟩, hcompletes⟩ :=
    hviable.viable hdialect (hs.note event) hne
  obtain rfl : d = d' := Option.some.inj (hback'.symm.trans hback)
  refine ⟨taken, rest, rfl, hcompletes, hhalts.names (h.dialect_eq.trans hdialect) hseen ht, ?_⟩
  -- What the parser has not moved over are the tokens that it has only looked at, and the rest.
  have hlength := hpaced.length_eq (hs.note event) ht
  simp only [List.length_append] at hlength
  omega

/-- The loop over what is ahead of the parser records something. -/
def Complains (s : Parser) : Prop := s.statements.2.diagnostics ≠ s.diagnostics

theorem complains_of_fails (hne : s.current.kind ≠ .eof) (h : s.statement.1 = none) :
    s.Complains := by
  have haccounts := s.attempt_statement.accounts
  rw [h] at haccounts
  rw [Complains, statements, if_neg hne]
  exact s.statement.2.advance.loop_statements.diagnostics_ne haccounts

theorem Complains.of_succeeds (hne : s.current.kind ≠ .eof)
    (hsame : s.statement.2.diagnostics = s.diagnostics) (h : s.statement.2.advance.Complains) :
    s.Complains := by
  rw [Complains, statements, if_neg hne]
  intro heq
  exact h (heq.trans hsame.symm)

/-! ## The loop -/

/-- The loop from `s` to `u` records its first diagnostic about the first of the tokens `rest`, in front
    of which it has read the tokens `taken`. -/
structure Detects (s : Parser) (taken rest : List Token) (u : Parser) : Prop where
  first : ∃ (t : Parser) (d : Diagnostic), t.Silent ∧ (t.report d).Keeps u ∧
    t.visited.length + d.lookahead = s.visited.length + taken.length ∧ d.Names (rest.headD .eof)
  viable : Completes IsProgram taken
  complains : ∀ s', Alike (taken.length + 1) s s' → s'.Complains

/-- An attempt that fails while nothing has been recorded yet. -/
theorem Attempt.detects (h : Attempt s.rule (s.note (.statement s.current.kind)) none t)
    (hloop : Loop t.advance stmts u) (hdialect : s.dialect = .standard) (hs : s.Reads tokens)
    (hne : s.current.kind ≠ .eof) (hsilent : s.Silent) :
    ∃ taken rest, tokens = taken ++ rest ∧ s.Detects taken rest u := by
  obtain ⟨actions, rfl, hlocal⟩ := h.traced
  obtain ⟨quiet, d, rfl, hquiet⟩ := hlocal.shape
  have hreport : (s.note (.statement s.current.kind)).perform (quiet ++ [.report d]) =
      ((s.note (.statement s.current.kind)).perform quiet).report d := perform_append ..
  obtain ⟨taken, rest, rfl, hcompletes, hnames, hlength⟩ :=
    h.blames hdialect hs hne (d := d) (by rw [hreport]; exact Array.back?_push)
  have hmoves := length_visited_perform (s := s.note (.statement s.current.kind)) hlocal.shape
  rw [hreport] at hloop hmoves hlength
  refine ⟨taken, rest, rfl, ?_, ?_, ?_⟩
  · refine ⟨_, d, (hsilent.note rfl).perform hquiet, (keeps_advance _).trans hloop.keeps, ?_, hnames⟩
    simpa using hlength
  · obtain ⟨more, hspelled, hstmt⟩ := hcompletes
    exact ⟨more, hspelled, hstmt.isProgram⟩
  · -- The steps reach the token that is to blame, and not beyond it.
    intro s' hs'
    have hreach : Action.reach (quiet ++ [.report d]) = taken.length + 1 := by
      rw [Action.reach_append hquiet, Action.reach]
      rw [Action.moves_append] at hmoves
      simp only [Action.moves] at hmoves
      omega
    have hstatement := hs'.statement_eq hlocal (Nat.le_of_eq hreach)
    refine complains_of_fails ?_ (congrArg Prod.fst hstatement)
    rwa [hs'.current (Nat.succ_pos _)]

/-- An attempt that succeeds: what the loop finds behind it, it finds behind the tokens of the
    statement. -/
theorem Detects.after {first : List Token} {stmt : Stmt} {actions : List Action}
    (hlocal : Local (statementBy s.rule) (s.note (.statement s.current.kind)) (some stmt) actions)
    (hfirst : first.length = Action.moves actions + 1) (hne : s.current.kind ≠ .eof)
    (hprogram : ∀ l, IsProgram l → IsProgram (first ++ l))
    (h : ((s.note (.statement s.current.kind)).perform actions).advance.Detects taken rest u) :
    s.Detects (first ++ taken) rest u where
  first := by
    obtain ⟨t, d, ht, hkeeps, hplace, hnames⟩ := h.first
    have hmoves := length_visited_perform (s := s.note (.statement s.current.kind)) hlocal.shape
    refine ⟨t, d, ht, hkeeps, ?_, hnames⟩
    simp only [visited_advance, visited_note, List.length_append, List.length_singleton,
      Event.visited?, Option.toList_none, List.length_nil] at hplace hmoves ⊢
    omega
  viable := h.viable.behind hprogram
  complains := by
    -- A parser that is alike reads the same statement, and what is left is alike as well.
    intro s' hs'
    have hmore : Alike (Action.moves actions + (taken.length + 2)) s s' :=
      hs'.mono (by simp only [List.length_append]; omega)
    have hreach := Action.reach_quiet hlocal.shape
    have hstatement := hmore.statement_eq hlocal (by omega)
    have hrest := h.complains _ (Alike.note hmore (.statement s.current.kind)).perform.advance
    have haccounts := s'.attempt_statement.accounts
    rw [hstatement] at haccounts
    refine Complains.of_succeeds ?_ ?_ ?_
    · rwa [hmore.current (by omega)]
    · rw [hstatement]
      exact haccounts
    · rwa [hstatement]

/-- **The loop records its first diagnostic where its tokens cannot go on.** -/
theorem Loop.detects (h : Loop s stmts u) (hdialect : s.dialect = .standard) (hs : s.Reads tokens)
    (hsilent : s.Silent) (hcomplains : u.diagnostics ≠ #[]) :
    ∃ taken rest, tokens = taken ++ rest ∧ s.Detects taken rest u := by
  induction h generalizing tokens with
  | done => exact absurd hsilent.diagnostics hcomplains
  | @step s t u result stmts hne hattempt hloop ih =>
      cases result with
      | none => exact hattempt.detects hloop hdialect hs hne hsilent
      | some stmt =>
          obtain ⟨first, ending, tokens, rfl, hstmt, hends, ht⟩ :=
            hattempt.sound_note hdialect hs hne
          obtain ⟨hpaced, _⟩ := hattempt.lands hne
          obtain ⟨actions, rfl, hlocal⟩ := hattempt.traced
          have hnote : (s.note (.statement s.current.kind)).Silent := hsilent.note rfl
          have hquiet := hnote.perform hlocal.shape
          obtain ⟨taken, rest, rfl, hdetects⟩ :=
            ih (hattempt.dialect_eq.trans hdialect) ht.advance hquiet.advance hcomplains
          -- The statement and its end are the tokens that the attempt has moved over, and the last one.
          obtain ⟨last, hlast⟩ := ht
          have hlength := hpaced.length_eq (hs.note _) hlast
          rw [length_visited_perform hlocal.shape] at hlength
          simp only [List.length_append, List.length_cons] at hlength
          have hfirst : (first ++ ending).length = Action.moves actions + 1 := by
            rw [List.length_append]
            omega
          refine ⟨first ++ ending ++ taken, rest, by simp, ?_⟩
          exact hdetects.after hlocal hfirst hne fun _ => .cons hstmt.isStatement hends

end Parser

/-! ## Whole sources -/

/-- Sources whose tokens begin alike are alike to the parser. -/
theorem alike_start {source other : String} {n : Nat}
    (hn : n ≤ (Cursor.ofString source).tokens.length)
    (h : (Cursor.ofString source).tokens.take n <+: (Cursor.ofString other).tokens) :
    Parser.Alike n (.start .standard (.ofString source)) (.start .standard (.ofString other)) where
  dialect := rfl
  tokens := by
    intro i hi
    obtain ⟨more, hmore⟩ := h
    rw [(Parser.reads_start _ _).tokenAt_eq, (Parser.reads_start _ _).tokenAt_eq, ← hmore]
    have hlength : i < ((Cursor.ofString source).tokens.take n).length := by
      rw [List.length_take]
      omega
    rw [List.getD_eq_getElem?_getD, List.getElem?_append_left hlength, List.getElem?_take_of_lt hi,
      List.getD_eq_getElem?_getD]

/-- **The first diagnostic is reported as early as it can be, and no earlier.** Let the first diagnostic
    of a source be about the token at the place `j`, which is the end if all tokens are in front of it.
    Then the tokens in front of that place are the beginning of a source without diagnostics; and if there
    is a token at the place, every source that begins with the tokens up to that one has a diagnostic. -/
theorem parse_reports_earliest (source : String) (h : (parse source).2.diagnostics ≠ #[]) :
    let tokens := (Cursor.ofString source).tokens
    ∃ d j, (parse source).2.diagnostics[0]? = some d ∧ (parse source).2.blamed? = some j ∧
      j ≤ tokens.length ∧ d.Names (tokens.getD j .eof) ∧
      (∃ other, tokens.take j <+: (Cursor.ofString other).tokens ∧
        (parse other).2.diagnostics = #[]) ∧
      (j < tokens.length → ∀ other, tokens.take (j + 1) <+: (Cursor.ofString other).tokens →
        (parse other).2.diagnostics ≠ #[]) := by
  intro tokens
  have hs : (Parser.start .standard (.ofString source)).Reads tokens := Parser.reads_start _ _
  obtain ⟨taken, rest, htokens, hdetects⟩ :=
    (Parser.start .standard (.ofString source)).loop_statements.detects rfl hs
      (Parser.silent_start _ _) h
  obtain ⟨t, d, ht, hkeeps, hplace, hnames⟩ := hdetects.first
  obtain ⟨hfirst, hblamed⟩ := ht.blamed?_eq (hkeeps.trans (Parser.keeps_note _ (.finished _ _)))
  rw [Parser.visited_start, List.length_nil, Nat.zero_add] at hplace
  have htake : tokens.take taken.length = taken := by rw [htokens, List.take_left]
  refine ⟨d, taken.length, hfirst, ?_, ?_, ?_, ?_, ?_⟩
  · rw [← hplace]
    exact hblamed
  · rw [htokens, List.length_append]
    omega
  · rw [htokens, List.getD_eq_getElem?_getD, List.getElem?_append_right (Nat.le_refl _), Nat.sub_self]
    cases rest <;> exact hnames
  · obtain ⟨more, hmore, hprogram⟩ := hdetects.viable
    obtain ⟨other, hother, haccepted⟩ := hprogram.exists_source fun token hmem => by
      rcases List.mem_append.mp hmem with hmem | hmem
      · exact hs.spelled token (htokens ▸ List.mem_append_left rest hmem)
      · exact hmore token hmem
    refine ⟨other, ?_, haccepted⟩
    rw [hother, htake]
    exact List.prefix_append taken more
  · intro hlt other hprefix
    exact hdetects.complains _ (alike_start hlt hprefix)

/-- A group that is not closed: the semicolon is to blame, and the seven tokens in front of it can be
    completed. -/
theorem parse_reports_earliest_group :
    let tokens := (Cursor.ofString "let x = (1 + 2; y").tokens
    (parse "let x = (1 + 2; y").2.diagnostics ≠ #[] ∧
      (parse "let x = (1 + 2; y").2.blamed? = some 7 ∧
      (∃ other, tokens.take 7 <+: (Cursor.ofString other).tokens ∧
        (parse other).2.diagnostics = #[]) ∧
      ∀ other, tokens.take 8 <+: (Cursor.ofString other).tokens →
        (parse other).2.diagnostics ≠ #[] := by
  intro tokens
  have hdiagnostics : (parse "let x = (1 + 2; y").2.diagnostics ≠ #[] := by decide +kernel
  have hblamed : (parse "let x = (1 + 2; y").2.blamed? = some 7 := by decide +kernel
  obtain ⟨d, j, _, hj, _, _, hbegins, hends⟩ := parse_reports_earliest _ hdiagnostics
  obtain rfl : j = 7 := Option.some.inj (hj.symm.trans hblamed)
  exact ⟨hdiagnostics, hblamed, hbegins, hends (by decide +kernel)⟩

end LetLang
