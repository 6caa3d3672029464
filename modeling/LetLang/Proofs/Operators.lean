import LetLang.Proofs.Grammar
import LetLang.Proofs.Window

/-!
# `LetLang.Proofs.Operators` — the operators of the standard dialect

The tables of the standard dialect and the tiers of the grammar say the same: a kind has a power exactly
if it is an operator of a tier, and the tiers are ordered as their powers are. So whether a parser takes
the next token as an operator is a question about the tokens that follow.

## Contents
- `Tier.power`, with `Dialect.power_of_mem` and `Dialect.exists_tier`: tiers and the table of powers.
- `GoesOn`: an operator that binds more tightly than a given power comes next.
- `Parser.continues_iff`: when a parser takes an operator.
- `Dialect.operand_eq_some`: the kinds that each rule for operands is for.
-/

namespace LetLang

/-! ## Tiers and powers -/

/-- The power of the operators of a tier; for the two tiers without any, that of a sign in front. -/
def Tier.power : Tier → Power
  | equality => .equals
  | comparison => .lessGreater
  | sum => .sum
  | product => .product
  | unary | atom => .unary

namespace Dialect

theorem power_of_mem {tier : Tier} {kind : Kind} (h : kind ∈ tier.operators) :
    standard.power kind = some tier.power := by
  cases tier with
  | unary | atom => exact absurd h List.not_mem_nil
  | equality | comparison | sum | product =>
      simp only [Tier.operators, List.mem_cons, List.not_mem_nil, or_false] at h
      rcases h with rfl | rfl <;> rfl

theorem exists_tier {kind : Kind} {power : Power} (h : standard.power kind = some power) :
    ∃ tier : Tier, kind ∈ tier.operators ∧ tier.power = power := by
  cases kind with
  | equal | notEqual => exact ⟨.equality, by simp [Tier.operators], Option.some.inj h⟩
  | less | greater => exact ⟨.comparison, by simp [Tier.operators], Option.some.inj h⟩
  | plus | dash => exact ⟨.sum, by simp [Tier.operators], Option.some.inj h⟩
  | star | slash => exact ⟨.product, by simp [Tier.operators], Option.some.inj h⟩
  | _ => cases h

/-- The two tables of operators have the same kinds. -/
theorem joins_eq_isSome (kind : Kind) : standard.joins kind = (standard.power kind).isSome := by
  cases kind <;> rfl

end Dialect

namespace Tier

/-- Above a power are the tiers whose operators bind more tightly. -/
theorem rank_above_le {tier : Tier} {kind : Kind} {floor : Power} (h : kind ∈ tier.operators)
    (hlt : floor < tier.power) : (above floor).rank ≤ tier.rank := by
  cases tier with
  | unary | atom => exact absurd h List.not_mem_nil
  | _ => revert hlt; cases floor <;> decide

theorem lt_power_of_rank_above_le {tier : Tier} {kind : Kind} {floor : Power}
    (h : kind ∈ tier.operators) (hle : (above floor).rank ≤ tier.rank) : floor < tier.power := by
  cases tier with
  | unary | atom => exact absurd h List.not_mem_nil
  | _ => revert hle; cases floor <;> decide

/-- Above the power of its operators is the next tighter tier. -/
theorem above_power {tier : Tier} {kind : Kind} (h : kind ∈ tier.operators) :
    above tier.power = tier.tighter := by
  cases tier with
  | unary | atom => exact absurd h List.not_mem_nil
  | _ => rfl

theorem rank_le_of_power_le {tier tier' : Tier} {kind : Kind} (h : kind ∈ tier.operators)
    (hle : tier.power ≤ tier'.power) : tier.rank ≤ tier'.rank := by
  cases tier with
  | unary | atom => exact absurd h List.not_mem_nil
  | _ => revert hle; cases tier' <;> decide

theorem power_le_tighter (tier : Tier) : tier.power ≤ tier.tighter.power := by
  cases tier <;> decide

theorem rank_above_le_unary (floor : Power) : (above floor).rank ≤ unary.rank := by
  cases floor <;> decide

end Tier

theorem Power.not_lt {p q : Power} : ¬p < q ↔ q ≤ p := Nat.not_lt

/-! ## What follows an expression -/

/-- The first of the tokens is an operator between operands that binds more tightly than `floor`. -/
def GoesOn (floor : Power) (rest : List Token) : Prop :=
  ∃ op more power, rest = op :: more ∧ Dialect.standard.power op.kind = some power ∧ floor < power

theorem goesOn_cons_iff {tier : Tier} {op : Token} {more : List Token} {floor : Power}
    (h : op.kind ∈ tier.operators) : GoesOn floor (op :: more) ↔ floor < tier.power := by
  have hpower := Dialect.power_of_mem h
  constructor
  · rintro ⟨_, _, power, heq, hsome, hlt⟩
    obtain ⟨rfl, rfl⟩ := List.cons.inj heq
    rwa [Option.some.inj (hpower.symm.trans hsome)]
  · intro hlt
    exact ⟨op, more, tier.power, rfl, hpower, hlt⟩

theorem GoesOn.exists_cons {floor : Power} {rest : List Token} (h : GoesOn floor rest) :
    ∃ op more, rest = op :: more ∧ ∃ tier : Tier, op.kind ∈ tier.operators ∧ floor < tier.power := by
  obtain ⟨op, more, power, rfl, hsome, hlt⟩ := h
  obtain ⟨tier, hmem, rfl⟩ := Dialect.exists_tier hsome
  exact ⟨op, more, rfl, tier, hmem, hlt⟩

/-- A token that is no operator carries nothing on. -/
theorem not_goesOn_cons {floor : Power} {token : Token} {more : List Token}
    (h : Dialect.standard.power token.kind = none) : ¬GoesOn floor (token :: more) := by
  rintro ⟨_, _, power, heq, hsome, _⟩
  obtain ⟨rfl, rfl⟩ := List.cons.inj heq
  exact nomatch h.symm.trans hsome

theorem not_goesOn_nil {floor : Power} : ¬GoesOn floor [] := by
  rintro ⟨_, _, _, heq, _⟩
  exact nomatch heq

theorem GoesOn.mono {p q : Power} {rest : List Token} (h : GoesOn q rest) (hle : p ≤ q) :
    GoesOn p rest := by
  obtain ⟨op, more, power, hrest, hsome, hlt⟩ := h
  exact ⟨op, more, power, hrest, hsome, Nat.lt_of_le_of_lt (n := p.rank) hle hlt⟩

/-- No operator between operands binds more tightly than a sign in front. -/
theorem not_goesOn_unary {rest : List Token} : ¬GoesOn .unary rest := by
  intro h
  obtain ⟨_, _, _, tier, _, hlt⟩ := h.exists_cons
  cases tier <;> exact absurd hlt (by decide)

namespace Parser

variable {s : Parser} {rest : List Token}

/-- **A parser takes the next token as an operator exactly if the tokens go on with one** that binds more
    tightly than the context asks. -/
theorem continues_iff {floor : Power} (hdialect : s.dialect = .standard) (hs : s.Before rest) :
    s.continues floor = true ∧ s.dialect.joins s.peek.kind = true ↔ GoesOn floor rest := by
  rw [continues, peekPower, hdialect, Dialect.joins_eq_isSome, Tables.powerOf, Bool.and_eq_true,
    decide_eq_true_eq, decide_eq_true_eq]
  constructor
  · rintro ⟨⟨_, hlt⟩, hsome⟩
    obtain ⟨power, hpower⟩ := Option.isSome_iff_exists.mp hsome
    have hne : s.peek.kind ≠ .eof := by
      intro heof
      rw [heof] at hpower
      exact nomatch hpower
    obtain ⟨more, hrest⟩ := hs.exists_cons hne
    rw [hpower] at hlt
    exact ⟨s.peek, more, power, hrest, hpower, hlt⟩
  · rintro ⟨op, more, power, rfl, hpower, hlt⟩
    have hpeek : s.peek = op := hs.peek_eq
    rw [hpeek, hpower]
    refine ⟨⟨?_, hlt⟩, rfl⟩
    intro hsemi
    rw [hsemi] at hpower
    exact nomatch hpower

end Parser

/-! ## What begins an expression -/

namespace Dialect

/-- The kinds that a rule for operands is for. -/
def operandKinds : OperandRule → List Kind
  | .identifier => [.ident]
  | .integer => [.int]
  | .boolean => [.trueWord, .falseWord]
  | .unary => [.not, .dash]
  | .group => [.openParen]

theorem operand_eq_some {kind : Kind} {rule : OperandRule} :
    standard.operand kind = some rule ↔ kind ∈ operandKinds rule := by
  cases kind <;> cases rule <;> decide

end Dialect

end LetLang
