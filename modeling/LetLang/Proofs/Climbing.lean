import LetLang.Proofs.Operators
import LetLang.Proofs.Run

/-!
# `LetLang.Proofs.Climbing` — expressions are read as the grammar derives them

The rules for expressions know one power, the context's, and compare it with that of the next operator.
The grammar has a tier for each power instead. They agree at every power: what the rules read in a
context of power `floor` is what the tier above `floor` derives, and they read on as long as an operator
of such a tier follows.

The loop `Parser.climb` carries the invariant. Its left operand is derived by a tier that is at least as
tight as the context asks, and no operator follows that binds more tightly than those of the tier.

## Contents
- `Parser.Sound`, `Run.sound`: a run that gives a tree has read a derivation of it.
- `Parser.IsRead`, `isRead_of_derives`: where a derivation lies ahead, the rules read it.
- `expression_refines_grammar`: both directions, for whole calls of `Parser.expression`.
-/

namespace LetLang

namespace Parser

/-! ## Soundness -/

/-- What a run of a call that gives the tree `e` has read between `s` and `t`. -/
def Sound : Call → Parser → Expr → Parser → Prop
  | .expression floor, s, e, t =>
    ∀ tokens, s.Reads tokens → ∃ taken rest, tokens = taken ++ rest ∧ t.Before rest ∧
      ¬GoesOn floor rest ∧ Derives (.above floor) taken e
  | .operand rule, s, e, t =>
    s.dialect.operand s.current.kind = some rule →
      ∀ tokens, s.Reads tokens → ∃ taken rest, tokens = taken ++ rest ∧ t.Before rest ∧
        Derives .unary taken e
  | .climb floor left, s, e, t =>
    ∀ tier before rest, s.Before rest → Derives tier before left →
      (Tier.above floor).rank ≤ tier.rank → ¬GoesOn tier.power rest →
        ∃ taken more, rest = taken ++ more ∧ t.Before more ∧ ¬GoesOn floor more ∧
          Derives (.above floor) (before ++ taken) e
  | .join left, s, e, t =>
    ∀ tier before op rest, s.Reads (op :: rest) → op.kind ∈ Tier.operators tier →
      Derives tier before left →
        ∃ taken more, rest = taken ++ more ∧ t.Before more ∧ ¬GoesOn tier.power more ∧
          Derives tier (before ++ op :: taken) e

variable {s t : Parser} {tokens rest : List Token}

/-- A leaf is one token, and the parser stays at it. -/
theorem sound_leaf {e : Expr} (hkind : s.current.kind ≠ .eof) (hs : s.Reads tokens)
    (h : s.current.Spelled → Derives .atom [s.current] e) :
    ∃ taken rest, tokens = taken ++ rest ∧ s.Before rest ∧ Derives .unary taken e := by
  obtain ⟨rest, rfl⟩ := hs.exists_cons hkind
  exact ⟨[s.current], rest, rfl, hs.before, .tighter (h hs.first_spelled)⟩

/-- The rule for operands that the standard dialect has for the current token. -/
theorem kind_mem_operandKinds {rule : OperandRule} (hdialect : s.dialect = .standard)
    (hrule : s.dialect.operand s.current.kind = some rule) :
    s.current.kind ∈ Dialect.operandKinds rule := by
  rw [hdialect] at hrule
  exact Dialect.operand_eq_some.mp hrule

theorem sound_identifier (hdialect : s.dialect = .standard) :
    Sound (.operand .identifier) s s.identifier s := by
  intro hrule tokens hs
  have hkind : s.current.kind = .ident := by
    simpa [Dialect.operandKinds] using kind_mem_operandKinds hdialect hrule
  exact sound_leaf (by simp [hkind]) hs fun _ => .name hkind

theorem sound_integer {value : Int} (hdialect : s.dialect = .standard)
    (hvalue : Text.readInt64? s.current.text = some value) :
    Sound (.operand .integer) s (.integer s.current value) s := by
  intro hrule tokens hs
  have hkind : s.current.kind = .int := by
    simpa [Dialect.operandKinds] using kind_mem_operandKinds hdialect hrule
  refine sound_leaf (by simp [hkind]) hs ?_
  intro hspelled
  rw [Text.readInt64?_of_isNumeral (hspelled.isNumeral hkind)] at hvalue
  by_cases hmax : Text.digitsValue s.current.text.toList < Text.int64Bound
  · rw [if_pos hmax] at hvalue
    obtain rfl := Option.some.inj hvalue
    exact .number hkind hmax
  · rw [if_neg hmax] at hvalue
    cases hvalue

theorem sound_boolean (hdialect : s.dialect = .standard) :
    Sound (.operand .boolean) s s.boolean s := by
  intro hrule tokens hs
  have hkind : s.current.kind = .trueWord ∨ s.current.kind = .falseWord := by
    simpa [Dialect.operandKinds] using kind_mem_operandKinds hdialect hrule
  have hne : s.current.kind ≠ .eof := by
    rcases hkind with h | h <;> simp [h]
  exact sound_leaf hne hs fun _ => .truth hkind

theorem Sound.unary {right : Expr} (hdialect : s.dialect = .standard)
    (h : Sound (.expression .unary) s.advance right t) :
    Sound (.operand .unary) s (.unary s.current s.current.text right) t := by
  intro hrule tokens hs
  have hkind : s.current.kind = .not ∨ s.current.kind = .dash := by
    simpa [Dialect.operandKinds] using kind_mem_operandKinds hdialect hrule
  have hne : s.current.kind ≠ .eof := by
    rcases hkind with h | h <;> simp [h]
  obtain ⟨rest, rfl⟩ := hs.exists_cons hne
  obtain ⟨taken, more, rfl, ht, _, hderives⟩ := h rest hs.advance
  exact ⟨s.current :: taken, more, rfl, ht, .unary hkind hderives⟩

theorem Sound.group {inner : Expr} (hdialect : s.dialect = .standard)
    (h : Sound (.expression .lowest) s.advance inner t) (hclose : t.peek.kind = .closeParen) :
    Sound (.operand .group) s inner t.advance := by
  intro hrule tokens hs
  have hkind : s.current.kind = .openParen := by
    simpa [Dialect.operandKinds] using kind_mem_operandKinds hdialect hrule
  obtain ⟨rest, rfl⟩ := hs.exists_cons (by simp [hkind])
  obtain ⟨taken, more, rfl, ht, _, hderives⟩ := h rest hs.advance
  obtain ⟨more, rfl⟩ := ht.exists_cons (by simp [hclose])
  refine ⟨s.current :: (taken ++ [t.peek]), more, by simp, ht.advance.before, ?_⟩
  exact .tighter (.group hkind hderives hclose)

/-- A call for an expression begins to climb with an operand, which no operator of its tier follows. -/
theorem Sound.operandThen {u : Parser} {floor : Power} {rule : OperandRule} {left e : Expr}
    (hrule : s.dialect.operand s.current.kind = some rule)
    (hoperand : Sound (.operand rule) s left t) (hclimb : Sound (.climb floor left) t e u) :
    Sound (.expression floor) s e u := by
  intro tokens hs
  obtain ⟨first, rest, rfl, ht, hfirst⟩ := hoperand hrule tokens hs
  obtain ⟨taken, more, rfl, hu, hstop, hderives⟩ :=
    hclimb .unary first rest ht hfirst (Tier.rank_above_le_unary _) not_goesOn_unary
  exact ⟨first ++ taken, more, (List.append_assoc ..).symm, hu, hstop, hderives⟩

theorem sound_stop {floor : Power} {left : Expr} (hdialect : s.dialect = .standard)
    (h : ¬(s.continues floor = true ∧ s.dialect.joins s.peek.kind = true)) :
    Sound (.climb floor left) s left s := by
  intro tier before rest hs hleft hle _
  rw [continues_iff hdialect hs] at h
  exact ⟨[], rest, rfl, hs, h, by simpa using hleft.loosen hle⟩

/-- One round of climbing. It keeps the invariant, with the tier of the operator that is taken. -/
theorem Sound.climb {u : Parser} {floor : Power} {left joined e : Expr}
    (hdialect : s.dialect = .standard)
    (h : s.continues floor = true ∧ s.dialect.joins s.peek.kind = true)
    (hjoin : Sound (.join left) s.takeOperator joined t)
    (hclimb : Sound (.climb floor joined) t e u) : Sound (.climb floor left) s e u := by
  intro tier before rest hs hleft _ hstop
  obtain ⟨op, rest, rfl, tier', hop, hlt⟩ := ((continues_iff hdialect hs).mp h).exists_cons
  -- The operator is of a tier no tighter than that of the left operand, which so is of its tier.
  have hle : tier'.power ≤ tier.power :=
    Power.not_lt.mp fun hlt => hstop ((goesOn_cons_iff hop).mpr hlt)
  have hleft' := hleft.loosen (Tier.rank_le_of_power_le hop hle)
  obtain ⟨right, rest, rfl, ht, hstop', hjoined⟩ :=
    hjoin tier' before op rest (hs.advance.note _) hop hleft'
  obtain ⟨taken, more, rfl, hu, hend, hderives⟩ :=
    hclimb tier' (before ++ op :: right) rest ht hjoined (Tier.rank_above_le hop hlt) hstop'
  exact ⟨op :: (right ++ taken), more, by simp, hu, hend, by simpa using hderives⟩

theorem currentPower_eq {tier : Tier} (hdialect : s.dialect = .standard)
    (h : s.current.kind ∈ tier.operators) : s.currentPower = tier.power := by
  rw [currentPower, hdialect, Tables.powerOf, Dialect.power_of_mem h]
  rfl

/-- The right operand is read in the context of the operator, so it is of the next tighter tier. -/
theorem Sound.join {left right : Expr} (hdialect : s.dialect = .standard)
    (h : Sound (.expression s.currentPower) s.advance right t) :
    Sound (.join left) s (.binary s.current left s.current.text right) t := by
  intro tier before op rest hs hop hleft
  obtain rfl := hs.current_eq
  obtain ⟨taken, more, rfl, ht, hstop, hderives⟩ := h rest hs.advance
  rw [currentPower_eq hdialect hop] at hstop hderives
  rw [Tier.above_power hop] at hderives
  exact ⟨taken, more, rfl, ht, hstop, .binary hleft hop hderives⟩

/-- **A run that gives a tree has read a derivation of it.** -/
theorem Run.sound {call : Call} {result : Option Expr} (h : Run call s result t)
    (hdialect : s.dialect = .standard) : ∀ e, result = some e → Sound call s e t := by
  induction h with
  | noOperand | operandFails | badInteger | unaryFails | groupFails | groupOpen | climbFails
  | joinFails => intro e he; cases he
  | operandThen hrule hoperand hclimb iho ihc =>
      intro e he
      have hmiddle := hoperand.dialect_eq.trans hdialect
      exact (iho hdialect _ rfl).operandThen hrule (ihc hmiddle e he)
  | identifier =>
      rintro e ⟨⟩
      exact sound_identifier hdialect
  | integer hvalue =>
      rintro e ⟨⟩
      exact sound_integer hdialect hvalue
  | boolean =>
      rintro e ⟨⟩
      exact sound_boolean hdialect
  | unary h ih =>
      rintro e ⟨⟩
      exact (ih hdialect _ rfl).unary hdialect
  | group h hclose ih =>
      rintro e ⟨⟩
      exact (ih hdialect _ rfl).group hdialect hclose
  | stop h =>
      rintro e ⟨⟩
      exact sound_stop hdialect h
  | climb h hjoin hclimb ihj ihc =>
      intro e he
      have hmiddle := hjoin.dialect_eq.trans hdialect
      exact (ihj hdialect _ rfl).climb hdialect h (ihc hmiddle e he)
  | join h ih =>
      rintro e ⟨⟩
      exact (ih hdialect _ rfl).join hdialect

/-! ## Completeness -/

/-- From `s` the parser has come to `t`, which stands right before `rest`, and recorded nothing. -/
structure Arrives (s t : Parser) (rest : List Token) : Prop where
  dialect : t.dialect = s.dialect
  diagnostics : t.diagnostics = s.diagnostics
  before : t.Before rest

theorem Arrives.trans {u : Parser} {more : List Token} (hst : s.Arrives t rest)
    (htu : t.Arrives u more) : s.Arrives u more :=
  ⟨htu.dialect.trans hst.dialect, htu.diagnostics.trans hst.diagnostics, htu.before⟩

/-- After one step the parser stands where it has come to from there. -/
theorem Arrives.of_advance (h : s.advance.Arrives t rest) : s.Arrives t rest :=
  ⟨h.dialect, h.diagnostics, h.before⟩

/-- Where no operator follows that binds more tightly, climbing ends at once. -/
theorem climb_stop {floor : Power} (left : Expr) (hdialect : s.dialect = .standard)
    (hs : s.Before rest) (hstop : ¬GoesOn floor rest) : s.climb floor left = (some left, s) := by
  rw [climb_eq, if_neg fun h => hstop ((continues_iff hdialect hs).mp h)]

/-- An operand that is read is what climbing starts with. -/
theorem expression_of_operand {rule : OperandRule} {left : Expr} (floor : Power)
    (hdialect : s.dialect = .standard) (hkind : s.current.kind ∈ Dialect.operandKinds rule)
    (h : s.operand rule = (some left, t)) : s.expression floor = t.climb floor left := by
  rw [expression_eq, hdialect, Dialect.operand_eq_some.mpr hkind]
  simp only [h]

/-- Where the tokens lie ahead, and no operator follows that binds more tightly than those of the tier,
    the rules read them and then go on climbing with the tree. -/
def IsRead (tier : Tier) (taken : List Token) (e : Expr) : Prop :=
  ∀ (floor : Power) {s : Parser} {rest : List Token}, s.dialect = .standard →
    s.Reads (taken ++ rest) → (Tier.above floor).rank ≤ tier.rank → ¬GoesOn tier.power rest →
      ∃ t, s.Arrives t rest ∧ s.expression floor = t.climb floor e

/-- What is read is a whole expression where climbing ends at once. -/
theorem IsRead.expression_eq {tier : Tier} {taken : List Token} {e : Expr}
    (h : IsRead tier taken e) (floor : Power) (hdialect : s.dialect = .standard)
    (hs : s.Reads (taken ++ rest)) (hle : (Tier.above floor).rank ≤ tier.rank)
    (htier : ¬GoesOn tier.power rest) (hstop : ¬GoesOn floor rest) :
    ∃ t, s.Arrives t rest ∧ s.expression floor = (some e, t) := by
  obtain ⟨t, ht, heq⟩ := h floor hdialect hs hle htier
  have hend := climb_stop e (ht.dialect.trans hdialect) ht.before hstop
  exact ⟨t, ht, heq.trans hend⟩

/-- A leaf is read where its rule reads it. -/
theorem isRead_leaf {rule : OperandRule} {token : Token} {e : Expr}
    (hkind : token.kind ∈ Dialect.operandKinds rule)
    (h : ∀ s : Parser, s.current = token → token.Spelled → s.operand rule = (some e, s)) :
    IsRead .atom [token] e := by
  intro floor s rest hdialect hs _ _
  have hcurrent : s.current = token := hs.current_eq
  have hread := h s hcurrent hs.first_spelled
  exact ⟨s, ⟨rfl, rfl, hs.before⟩,
    expression_of_operand floor hdialect (by rw [hcurrent]; exact hkind) hread⟩

theorem isRead_name {token : Token} (hkind : token.kind = .ident) :
    IsRead .atom [token] (.identifier ⟨token, token.text⟩) := by
  have hmem : token.kind ∈ Dialect.operandKinds .identifier := by
    simp [hkind, Dialect.operandKinds]
  apply isRead_leaf hmem
  rintro s rfl _
  exact operand_eq .identifier s

theorem isRead_number {token : Token} (hkind : token.kind = .int)
    (hmax : token.value < Text.int64Bound) : IsRead .atom [token] (.integer token token.value) := by
  have hmem : token.kind ∈ Dialect.operandKinds .integer := by
    simp [hkind, Dialect.operandKinds]
  apply isRead_leaf hmem
  rintro s rfl hspelled
  have hbound : Text.digitsValue s.current.text.toList < Text.int64Bound := hmax
  rw [operand_eq, integer, Text.readInt64?_of_isNumeral (hspelled.isNumeral hkind), if_pos hbound]
  rfl

theorem isRead_truth {token : Token} (hkind : token.kind = .trueWord ∨ token.kind = .falseWord) :
    IsRead .atom [token] (.boolean token (token.kind == .trueWord)) := by
  have hmem : token.kind ∈ Dialect.operandKinds .boolean := by
    rcases hkind with h | h <;> simp [h, Dialect.operandKinds]
  apply isRead_leaf hmem
  rintro s rfl _
  exact operand_eq .boolean s

theorem IsRead.group {opening closing : Token} {inner : List Token} {e : Expr}
    (hopen : opening.kind = .openParen) (h : IsRead .equality inner e)
    (hclose : closing.kind = .closeParen) : IsRead .atom (opening :: (inner ++ [closing])) e := by
  intro floor s rest hdialect hs _ _
  obtain rfl := hs.current_eq
  have hinner : s.advance.Reads (inner ++ closing :: rest) := by simpa using hs.advance
  have hstop : ∀ {p}, ¬GoesOn p (closing :: rest) := not_goesOn_cons (by rw [hclose]; rfl)
  obtain ⟨t, ht, heq⟩ := h.expression_eq .lowest (s := s.advance) hdialect hinner
    (Nat.zero_le _) hstop hstop
  have hpeek : t.peek.kind = .closeParen := by
    rw [ht.before.peek_eq]
    exact hclose
  have hread : s.operand .group = (some e, t.advance) := by
    rw [operand_eq]
    simp only [heq, expect, if_pos hpeek]
    rfl
  have hmem : s.current.kind ∈ Dialect.operandKinds .group := by
    simp [hopen, Dialect.operandKinds]
  exact ⟨t.advance, ⟨ht.dialect, ht.diagnostics, ht.before.advance.before⟩,
    expression_of_operand floor hdialect hmem hread⟩

theorem IsRead.unary {op : Token} {taken : List Token} {e : Expr}
    (hop : op.kind = .not ∨ op.kind = .dash) (h : IsRead .unary taken e) :
    IsRead .unary (op :: taken) (.unary op op.text e) := by
  intro floor s rest hdialect hs _ _
  obtain rfl := hs.current_eq
  obtain ⟨t, ht, heq⟩ := h.expression_eq .unary (s := s.advance) hdialect hs.advance
    (Nat.le_refl _) not_goesOn_unary not_goesOn_unary
  have hread : s.operand .unary = (some (.unary s.current s.current.text e), t) := by
    rw [operand_eq]
    simp only [heq]
  have hmem : s.current.kind ∈ Dialect.operandKinds .unary := by
    rcases hop with h | h <;> simp [h, Dialect.operandKinds]
  exact ⟨t, ht.of_advance, expression_of_operand floor hdialect hmem hread⟩

theorem IsRead.binary {tier : Tier} {op : Token} {left right : List Token} {e f : Expr}
    (hleft : IsRead tier left e) (hop : op.kind ∈ tier.operators)
    (hright : IsRead tier.tighter right f) :
    IsRead tier (left ++ op :: right) (.binary op e op.text f) := by
  intro floor s rest hdialect hs hle hstop
  have hs' : s.Reads (left ++ op :: (right ++ rest)) := by simpa using hs
  -- An operator does not bind more tightly than itself, so the left operand ends in front of it.
  have hself : ¬GoesOn tier.power (op :: (right ++ rest)) := by
    intro hgo
    exact absurd ((goesOn_cons_iff hop).mp hgo) (Nat.lt_irrefl _)
  obtain ⟨t, ht, heq⟩ := hleft floor hdialect hs' hle hself
  have htdialect := ht.dialect.trans hdialect
  -- The operator binds more tightly than the context asks, so it is taken.
  have hcont := (continues_iff htdialect ht.before).mpr
    ((goesOn_cons_iff hop).mpr (Tier.lt_power_of_rank_above_le hop hle))
  have hreads : t.takeOperator.Reads (op :: (right ++ rest)) := ht.before.advance.note _
  -- Its right operand is read in the context of its own power, and so by the next tighter tier.
  have hcurrent := hreads.current_eq
  have hpower : t.takeOperator.currentPower = tier.power :=
    currentPower_eq (s := t.takeOperator) htdialect (by rw [hcurrent]; exact hop)
  have habove : (Tier.above tier.power).rank ≤ tier.tighter.rank :=
    Nat.le_of_eq (congrArg Tier.rank (Tier.above_power hop))
  obtain ⟨u, hu, heq'⟩ := hright.expression_eq tier.power (s := t.takeOperator.advance) htdialect
    hreads.advance habove (fun hgo => hstop (hgo.mono tier.power_le_tighter)) hstop
  have hjoined : t.takeOperator.join e = (some (.binary op e op.text f), u) := by
    rw [join_eq, hpower]
    simp only [heq', hcurrent]
  refine ⟨u, ht.trans ⟨hu.dialect, hu.diagnostics, hu.before⟩, ?_⟩
  rw [heq, climb_eq, if_pos hcont]
  simp only [hjoined]

theorem IsRead.of_tighter {tier : Tier} {taken : List Token} {e : Expr}
    (h : IsRead tier.tighter taken e) : IsRead tier taken e := by
  intro floor s rest hdialect hs hle hstop
  have hrank : tier.rank ≤ tier.tighter.rank := by
    cases tier <;> decide
  refine h floor hdialect hs (Nat.le_trans hle hrank) ?_
  intro hgo
  exact hstop (hgo.mono tier.power_le_tighter)

/-- **Where a derivation lies ahead, the rules read it.** -/
theorem isRead_of_derives {tier : Tier} {taken : List Token} {e : Expr}
    (h : Derives tier taken e) : IsRead tier taken e := by
  induction h with
  | name hkind => exact isRead_name hkind
  | number hkind hmax => exact isRead_number hkind hmax
  | truth hkind => exact isRead_truth hkind
  | group hopen _ hclose ih => exact ih.group hopen hclose
  | unary hop _ ih => exact ih.unary hop
  | binary _ hop _ ihleft ihright => exact ihleft.binary hop ihright
  | tighter _ ih => exact ih.of_tighter

/-! ## Whole expressions -/

/-- A parser that has come to right before `rest` stands at the last of the tokens in between. -/
theorem Before.at_last {taken : List Token} (hst : s.Onward t) (hs : s.Reads (taken ++ rest))
    (ht : t.Before rest) : taken.getLast? = some t.current ∧ t.Reads (t.current :: rest) := by
  obtain ⟨last, hlast⟩ := ht
  obtain ⟨_, ⟨first, hfirst⟩, hreads⟩ := hst hs
  obtain rfl := hreads.unique hlast
  obtain rfl := hlast.current_eq
  have htaken : first ++ [t.current] = taken :=
    List.append_cancel_right (by rw [← hfirst, List.append_assoc]; rfl)
  exact ⟨by rw [← htaken, List.getLast?_concat], hlast⟩

/-- No operator binds more tightly than the context asks, so none does than the tier above it. -/
theorem not_goesOn_above {floor : Power} (h : ¬GoesOn floor rest) :
    ¬GoesOn (Tier.above floor).power rest := by
  intro hgo
  obtain ⟨op, more, rfl, tier, hop, hlt⟩ := hgo.exists_cons
  refine h ((goesOn_cons_iff hop).mpr ?_)
  revert hlt
  cases floor <;> cases tier <;> decide

/-- **Expressions are read as the grammar derives them.** If a call in a context of power `floor` gives a
    tree, the tokens up to the current one are derived by the tier above `floor`, with that tree, and no
    operator follows that binds more tightly. If tokens that are so derived lie ahead, and no such
    operator follows them, the call gives their tree and stops at the last one. Nothing is recorded. -/
theorem expression_refines_grammar (floor : Power) (hdialect : s.dialect = .standard)
    (hs : s.Reads tokens) :
    (∀ e t, s.expression floor = (some e, t) →
      ∃ taken rest, tokens = taken ++ rest ∧ taken.getLast? = some t.current ∧
        t.Reads (t.current :: rest) ∧ t.diagnostics = s.diagnostics ∧ ¬GoesOn floor rest ∧
        Derives (.above floor) taken e) ∧
    (∀ taken rest e, tokens = taken ++ rest → Derives (.above floor) taken e →
      ¬GoesOn floor rest →
        ∃ t, s.expression floor = (some e, t) ∧ taken.getLast? = some t.current ∧
          t.Reads (t.current :: rest) ∧ t.diagnostics = s.diagnostics) := by
  have hrun := run_expression floor s
  constructor
  · intro e t heq
    rw [heq] at hrun
    obtain ⟨taken, rest, rfl, ht, hstop, hderives⟩ := hrun.sound hdialect e rfl tokens hs
    obtain ⟨hlast, hreads⟩ := ht.at_last hrun.onward hs
    exact ⟨taken, rest, rfl, hlast, hreads, hrun.accounts, hstop, hderives⟩
  · rintro taken rest e rfl hderives hstop
    obtain ⟨t, ht, heq⟩ := (isRead_of_derives hderives).expression_eq floor hdialect hs
      (Nat.le_refl _) (not_goesOn_above hstop) hstop
    rw [heq] at hrun
    obtain ⟨hlast, hreads⟩ := ht.before.at_last hrun.onward hs
    exact ⟨t, heq, hlast, hreads, ht.diagnostics⟩

/-- In the context of an equality the sum in front of it is read, and no more. -/
theorem expression_refines_grammar_sum :
    let s := start .standard (.ofString "-a+b == c")
    let a : Token := ⟨.ident, "a"⟩
    let b : Token := ⟨.ident, "b"⟩
    let rest : List Token := [⟨.equal, "=="⟩, ⟨.ident, "c"⟩]
    s.dialect = .standard ∧ s.Reads ([⟨.dash, "-"⟩, a, ⟨.plus, "+"⟩, b] ++ rest) ∧
      ∃ t, s.expression .equals = (some (.binary ⟨.plus, "+"⟩
          (.unary ⟨.dash, "-"⟩ "-" (.identifier ⟨a, "a"⟩)) "+" (.identifier ⟨b, "b"⟩)), t) ∧
        t.Reads (b :: rest) ∧ t.diagnostics = #[] := by
  intro s a b rest
  have htokens : (Cursor.ofString "-a+b == c").tokens = [⟨.dash, "-"⟩, ⟨.ident, "a"⟩, ⟨.plus, "+"⟩,
      ⟨.ident, "b"⟩, ⟨.equal, "=="⟩, ⟨.ident, "c"⟩] := by decide +kernel
  have hs : s.Reads ([⟨.dash, "-"⟩, a, ⟨.plus, "+"⟩, b] ++ rest) := by
    have hreads := reads_start .standard (.ofString "-a+b == c")
    rwa [htokens] at hreads
  have hleft : Derives .sum [⟨.dash, "-"⟩, a] (.unary ⟨.dash, "-"⟩ "-" (.identifier ⟨a, "a"⟩)) :=
    .tighter (.tighter (.unary (Or.inr rfl) (.tighter (.name rfl))))
  have hright : Derives .product [b] (.identifier ⟨b, "b"⟩) := .tighter (.tighter (.name rfl))
  have hsum : Derives .sum ([⟨.dash, "-"⟩, a] ++ ⟨.plus, "+"⟩ :: [b]) _ :=
    .binary hleft (by decide) hright
  have hstop : ¬GoesOn .equals rest := by
    rw [goesOn_cons_iff (show Kind.equal ∈ Tier.operators .equality by decide)]
    decide
  obtain ⟨t, heq, hlast, hreads, hdiagnostics⟩ :=
    (expression_refines_grammar .equals rfl hs).2 _ rest _ rfl (.tighter hsum) hstop
  have hcurrent : b = t.current := Option.some.inj hlast
  exact ⟨rfl, hs, t, heq, hcurrent ▸ hreads, hdiagnostics⟩

end Parser

end LetLang
