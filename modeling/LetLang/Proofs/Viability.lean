import LetLang.Proofs.Statements
import LetLang.Proofs.Steps

/-!
# `LetLang.Proofs.Viability` — what has been read before a mistake can be completed

An attempt that fails blames a token. The tokens in front of that one are still the beginning of a
statement: some more tokens make them one. So no attempt fails later than it could have.

For expressions the induction is on the run. A call that fails has read the beginning of an expression,
whatever the power of its context, since an operand and all operators behind it belong to expressions as
well. A round of climbing fails behind an expression, and a join behind an operator that follows one.

## Contents
- `Completes`: the tokens are the beginning of something.
- `Parser.Blames`, `Parser.Stuck`: a parser that has recorded why it cannot go on, and the beginning that
  it has read before.
- `Run.viable`, `Attempt.viable`: the calls and the attempts that fail.
-/

namespace LetLang

/-! ## Beginnings -/

/-- Some tokens that a source can hold, behind the given ones, complete them to what is asked for. -/
def Completes (p : List Token → Prop) (tokens : List Token) : Prop :=
  ∃ more, (∀ token ∈ more, token.Spelled) ∧ p (tokens ++ more)

section

variable {p q : List Token → Prop} {front tokens : List Token}

theorem Completes.behind (h : Completes p tokens) (hpq : ∀ l, p l → q (front ++ l)) :
    Completes q (front ++ tokens) := by
  obtain ⟨more, hspelled, hmore⟩ := h
  refine ⟨more, hspelled, ?_⟩
  rw [List.append_assoc]
  exact hpq _ hmore

/-- What is complete needs no more tokens. -/
theorem completes_of (h : p tokens) : Completes p tokens :=
  ⟨[], List.forall_mem_nil _, by rwa [List.append_nil]⟩

end

/-- A name, which can stand wherever an operand is missing. -/
def anyName : Token := ⟨.ident, "x"⟩

theorem spelled_anyName : anyName.Spelled := .name (by decide)

theorem isPhrase_anyName : IsPhrase .expression [anyName] := .single (.bare (.name rfl))

/-- The token of a symbol, which is spelled by the name of its kind. -/
def Kind.token (kind : Kind) : Token := ⟨kind, kind.name⟩

theorem spelled_token {kind : Kind} (h : kind ∈ Kind.symbols) : kind.token.Spelled := .symbol h

/-- Nothing yet: a name is an expression. -/
theorem completes_nil : Completes (IsPhrase .expression) [] :=
  ⟨[anyName], by simp [spelled_anyName], isPhrase_anyName⟩

/-- An operator in front of an operand can stand in front of an expression, where it belongs to the first
    operand. -/
theorem IsPhrase.sign {op : Token} {tokens : List Token} (h : IsPhrase .expression tokens)
    (hop : op.kind = .not ∨ op.kind = .dash) : IsPhrase .expression (op :: tokens) := by
  generalize hphrase : Phrase.expression = phrase at h
  induction h with
  | name | number | truth | group | bare | unary => exact nomatch hphrase
  | single h => exact .single (.unary hop h)
  | joined _ hop' hright ih => exact .joined (ih rfl) hop' hright

/-- A group can be closed as soon as the expression in it is complete. -/
theorem Completes.group {opening : Token} {tokens : List Token} (hopen : opening.kind = .openParen)
    (h : Completes (IsPhrase .expression) tokens) :
    Completes (IsPhrase .expression) (opening :: tokens) := by
  obtain ⟨more, hspelled, hmore⟩ := h
  have hgroup : IsPhrase .atom (opening :: ((tokens ++ more) ++ [Kind.closeParen.token])) :=
    .group hopen hmore rfl
  refine ⟨more ++ [Kind.closeParen.token], ?_, by simpa using hgroup.expression⟩
  intro token hmem
  rcases List.mem_append.mp hmem with hmem | hmem
  · exact hspelled token hmem
  · rw [List.mem_singleton.mp hmem]
    exact spelled_token (by decide)

namespace Parser

variable {s t : Parser} {tokens rest : List Token} {p q : List Token → Prop}

/-! ## Parsers that cannot go on -/

/-- The last diagnostic is about the first of the tokens `rest`. The parser stands at that one, or right
    in front of it if the diagnostic is about the next token. -/
def Blames (t : Parser) (rest : List Token) : Prop :=
  ∃ d seen, t.diagnostics.back? = some d ∧ seen.length = d.lookahead ∧ t.Reads (seen ++ rest)

theorem blames_current {d : Diagnostic} (h : s.Reads rest) (hd : d.lookahead = 0) :
    (s.report d).Blames rest :=
  ⟨d, [], Array.back?_push, hd.symm, h.report d⟩

theorem Before.blames {d : Diagnostic} (h : s.Before rest) (hd : d.lookahead = 1) :
    (s.report d).Blames rest := by
  obtain ⟨last, hreads⟩ := h
  exact ⟨d, [last], Array.back?_push, hd.symm, hreads.report d⟩

/-- Behind the tokens `before` the parser has gone through some of the tokens `tokens` and blames the next
    one. Up to that one they can be completed. -/
def Stuck (t : Parser) (p : List Token → Prop) (before tokens : List Token) : Prop :=
  ∃ taken rest, tokens = taken ++ rest ∧ t.Blames rest ∧ Completes p (before ++ taken)

theorem Stuck.shift {before first : List Token} (h : t.Stuck p (before ++ first) tokens) :
    t.Stuck p before (first ++ tokens) := by
  obtain ⟨taken, rest, rfl, hblames, hcompletes⟩ := h
  refine ⟨first ++ taken, rest, (List.append_assoc ..).symm, hblames, ?_⟩
  rwa [← List.append_assoc]

/-- What can be completed by itself can be completed behind something that goes in front of it. -/
theorem Stuck.behind {front : List Token} (h : t.Stuck p [] tokens)
    (hpq : ∀ l, p l → q (front ++ l)) : t.Stuck q front tokens := by
  obtain ⟨taken, rest, rfl, hblames, hcompletes⟩ := h
  exact ⟨taken, rest, rfl, hblames, hcompletes.behind hpq⟩

theorem Stuck.after (front : List Token) (h : t.Stuck p [] tokens)
    (hpq : ∀ l, p l → q (front ++ l)) : t.Stuck q [] (front ++ tokens) :=
  (h.behind hpq : t.Stuck q ([] ++ front) tokens).shift

/-! ## Expressions -/

/-- What a call that fails has read between `s` and `t`. -/
def Viable : Call → Parser → Parser → Prop
  | .expression _, s, t =>
    ∀ tokens, s.Reads tokens → t.Stuck (IsPhrase .expression) [] tokens
  | .operand rule, s, t =>
    s.dialect.operand s.current.kind = some rule →
      ∀ tokens, s.Reads tokens → t.Stuck (IsPhrase .expression) [] tokens
  | .climb _ _, s, t =>
    ∀ before rest, IsPhrase .expression before → s.Before rest →
      t.Stuck (IsPhrase .expression) before rest
  | .join _, s, t =>
    ∀ before op rest, IsPhrase .expression before → op.kind ∈ Kind.binaryOperators →
      s.Reads (op :: rest) → t.Stuck (IsPhrase .expression) (before ++ [op]) rest

theorem viable_noOperand (floor : Power) (s : Parser) :
    Viable (.expression floor) s (s.report (.noOperand s.current.kind)) := by
  intro tokens hs
  exact ⟨[], tokens, rfl, blames_current hs rfl, completes_nil⟩

theorem viable_badInteger (s : Parser) :
    Viable (.operand .integer) s (s.report (.badInteger s.current.text)) := by
  intro _ tokens hs
  exact ⟨[], tokens, rfl, blames_current hs rfl, completes_nil⟩

theorem Viable.operandThen {u : Parser} {floor : Power} {rule : OperandRule} {left : Expr}
    (hrule : s.dialect.operand s.current.kind = some rule)
    (hoperand : Sound (.operand rule) s left t) (hclimb : Viable (.climb floor left) t u) :
    Viable (.expression floor) s u := by
  intro tokens hs
  obtain ⟨first, rest, rfl, ht, hderives⟩ := hoperand hrule tokens hs
  exact (hclimb first rest hderives.isPhrase.expression ht).shift

theorem Viable.unaryFails (hdialect : s.dialect = .standard)
    (h : Viable (.expression .unary) s.advance t) : Viable (.operand .unary) s t := by
  intro hrule tokens hs
  have hkind : s.current.kind = .not ∨ s.current.kind = .dash := by
    simpa [Dialect.operandKinds] using kind_mem_operandKinds hdialect hrule
  obtain ⟨rest, rfl⟩ := hs.exists_cons (current_kind_ne_eof hrule)
  exact (h rest hs.advance).after [s.current] fun _ hl => hl.sign hkind

theorem kind_of_group (hdialect : s.dialect = .standard)
    (hrule : s.dialect.operand s.current.kind = some .group) : s.current.kind = .openParen := by
  simpa [Dialect.operandKinds] using kind_mem_operandKinds hdialect hrule

theorem Viable.groupFails (hdialect : s.dialect = .standard)
    (h : Viable (.expression .lowest) s.advance t) : Viable (.operand .group) s t := by
  intro hrule tokens hs
  obtain ⟨rest, rfl⟩ := hs.exists_cons (current_kind_ne_eof hrule)
  obtain ⟨taken, rest, rfl, hblames, hcompletes⟩ := h rest hs.advance
  exact ⟨s.current :: taken, rest, rfl, hblames, hcompletes.group (kind_of_group hdialect hrule)⟩

/-- Behind the expression in a group the closing parenthesis can still come. -/
theorem viable_groupOpen {inner : Expr} (hdialect : s.dialect = .standard)
    (h : Sound (.expression .lowest) s.advance inner t) (kind : Kind) :
    Viable (.operand .group) s (t.report (.unexpectedToken .closeParen kind)) := by
  intro hrule tokens hs
  obtain ⟨rest, rfl⟩ := hs.exists_cons (current_kind_ne_eof hrule)
  obtain ⟨taken, rest, rfl, ht, _, hderives⟩ := h rest hs.advance
  have hinner := completes_of hderives.isPhrase.expression
  exact ⟨s.current :: taken, rest, rfl, ht.blames rfl, hinner.group (kind_of_group hdialect hrule)⟩

/-- The operator that a round of climbing takes. -/
theorem exists_operator {floor : Power} (hdialect : s.dialect = .standard) (hs : s.Before rest)
    (h : s.continues floor = true ∧ s.dialect.joins s.peek.kind = true) :
    ∃ op more, rest = op :: more ∧ op.kind ∈ Kind.binaryOperators ∧
      s.takeOperator.Reads (op :: more) := by
  obtain ⟨op, more, rfl, tier, hop, _⟩ := ((continues_iff hdialect hs).mp h).exists_cons
  exact ⟨op, more, rfl, Tier.mem_binaryOperators hop, hs.advance.note _⟩

theorem Viable.climbFails {floor : Power} {left : Expr} (hdialect : s.dialect = .standard)
    (h : s.continues floor = true ∧ s.dialect.joins s.peek.kind = true)
    (hjoin : Viable (.join left) s.takeOperator t) : Viable (.climb floor left) s t := by
  intro before rest hbefore hs
  obtain ⟨op, more, rfl, hop, htake⟩ := exists_operator hdialect hs h
  exact (hjoin before op more hbefore hop htake).shift

/-- A round that fails behind a complete one: the operator and its right operand have joined the
    expression in front. -/
theorem Viable.climb {u : Parser} {floor power : Power} {left right joined : Expr}
    (hdialect : s.dialect = .standard)
    (h : s.continues floor = true ∧ s.dialect.joins s.peek.kind = true)
    (hright : Sound (.expression power) s.takeOperator.advance right t)
    (hclimb : Viable (.climb floor joined) t u) : Viable (.climb floor left) s u := by
  intro before rest hbefore hs
  obtain ⟨op, more, rfl, hop, htake⟩ := exists_operator hdialect hs h
  obtain ⟨taken, rest, rfl, ht, _, hderives⟩ := hright more htake.advance
  have hjoined := hbefore.append hop hderives.isPhrase.expression
  exact (hclimb _ rest hjoined ht).shift

theorem Viable.joinFails {power : Power} {left : Expr}
    (h : Viable (.expression power) s.advance t) : Viable (.join left) s t := by
  intro before op rest hbefore hop hs
  refine (h rest hs.advance).behind fun l hl => ?_
  rw [List.append_assoc]
  exact hbefore.append hop hl

/-- **A call that fails has read the beginning of an expression**, up to the token that it blames. -/
theorem Run.viable {call : Call} {result : Option Expr} (h : Run call s result t)
    (hdialect : s.dialect = .standard) : result = none → Viable call s t := by
  induction h with
  | identifier | integer | boolean | unary | group | stop | join => exact nofun
  | noOperand => exact fun _ => viable_noOperand _ _
  | operandFails hrule _ ih =>
      intro hnone
      exact ih hdialect hnone hrule
  | operandThen hrule hoperand _ _ ihc =>
      intro hnone
      have hmiddle := hoperand.dialect_eq.trans hdialect
      exact (ihc hmiddle hnone).operandThen hrule (hoperand.sound hdialect _ rfl)
  | badInteger => exact fun _ => viable_badInteger _
  | unaryFails _ ih => exact fun hnone => (ih hdialect hnone).unaryFails hdialect
  | groupFails _ ih => exact fun hnone => (ih hdialect hnone).groupFails hdialect
  | groupOpen h _ _ => exact fun _ => viable_groupOpen hdialect (h.sound hdialect _ rfl) _
  | climbFails h _ ih => exact fun hnone => (ih hdialect hnone).climbFails hdialect h
  | climb h hjoin _ _ ihc =>
      intro hnone
      have hmiddle := hjoin.dialect_eq.trans hdialect
      cases hjoin with
      | join hright => exact (ihc hmiddle hnone).climb hdialect h (hright.sound hdialect _ rfl)
  | joinFails _ ih => exact fun hnone => (ih hdialect hnone).joinFails

/-! ## Statements -/

/-- **An attempt that fails has read the beginning of a statement**, up to the token that it blames. -/
theorem Attempt.viable (h : Attempt s.rule s none t) (hdialect : s.dialect = .standard)
    (hs : s.Reads tokens) (hne : s.current.kind ≠ .eof) : t.Stuck IsStatement [] tokens := by
  obtain ⟨hletWord, hreturnWord⟩ := kind_of_rule hdialect
  obtain ⟨rest, rfl⟩ := hs.exists_cons hne
  have hsign : Kind.assign.token.Spelled := spelled_token (by decide)
  generalize hrule : s.rule = rule at h
  cases h with
  | bindNoName _ =>
      refine ⟨[s.current], rest, rfl, hs.before.blames rfl,
        [anyName, Kind.assign.token, anyName], by simp [spelled_anyName, hsign], ?_⟩
      exact .bind (hletWord hrule) rfl rfl isPhrase_anyName
  | bindNoSign hname _ =>
      obtain ⟨rest, rfl⟩ := hs.before.exists_cons (by simp [hname])
      refine ⟨[s.current, s.peek], rest, rfl, hs.advance.before.blames rfl,
        [Kind.assign.token, anyName], by simp [spelled_anyName, hsign], ?_⟩
      exact .bind (hletWord hrule) hname rfl isPhrase_anyName
  | bindFails hname hsign h =>
      have hs1 := hs.before
      obtain ⟨rest, rfl⟩ := hs1.exists_cons (by simp [hname])
      have hs2 := hs1.advance.before
      obtain ⟨rest, rfl⟩ := hs2.exists_cons (by simp [hsign])
      exact (h.viable hdialect rfl rest hs2.advance.advance).after
        [s.current, s.peek, s.advance.peek] fun _ hl => .bind (hletWord hrule) hname hsign hl
  | retFails h =>
      exact (h.viable hdialect rfl rest hs.advance).after [s.current] fun _ hl =>
        .ret (hreturnWord hrule) hl
  | exprFails h => exact (h.viable hdialect rfl _ hs).after [] fun _ hl => .expr hl

end Parser

end LetLang
