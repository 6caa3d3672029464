import LetLang.Dialect
import LetLang.Program
import LetLang.Text.Decimal

/-!
# `LetLang.Proofs.Grammar` — the grammar of the language

Two grammars over lists of tokens. The *tiered* one has a tier for each level of operators, each a left
fold of the next tighter one, and gives the tree of an expression. The *flat* one says only which lists
are expressions: operands with operators between them. Both have the same expressions
(`Derives.isPhrase`, `IsPhrase.derives`).

## Contents
- `Tier`, `Derives`: expressions with their trees. `Derives.loosen` and `Derives.snoc` build longer ones.
- `Phrase`, `IsPhrase`: expressions without trees. `IsPhrase.append` and `IsPhrase.merge` join two.
- `DerivesStmt`, `IsStatement`, `IsProgram`: statements with and without trees, and programs.
-/

namespace LetLang

/-- The number that the digits of a token stand for. -/
def Token.value (token : Token) : Nat := Text.digitsValue token.text.toList

/-! ## Tiers -/

/-- The levels of expressions, the loosest first. -/
inductive Tier where
  | equality
  | comparison
  | sum
  | product
  | unary
  | atom
  deriving DecidableEq, Repr

namespace Tier

/-- The operators that join two operands at a tier. -/
def operators : Tier → List Kind
  | equality => [.equal, .notEqual]
  | comparison => [.less, .greater]
  | sum => [.plus, .dash]
  | product => [.star, .slash]
  | unary | atom => []

/-- The next tighter tier. -/
def tighter : Tier → Tier
  | equality => comparison
  | comparison => sum
  | sum => product
  | product => unary
  | unary | atom => atom

/-- The place of a tier, counted from the loosest. -/
def rank : Tier → Nat
  | equality => 0
  | comparison => 1
  | sum => 2
  | product => 3
  | unary => 4
  | atom => 5

/-- The loosest tier whose operators all bind more tightly than `floor`. -/
def above : Power → Tier
  | .lowest => equality
  | .equals => comparison
  | .lessGreater => sum
  | .sum => product
  | .product | .unary | .call => unary

theorem rank_inj {tier tier' : Tier} (h : tier.rank = tier'.rank) : tier = tier' := by
  revert h
  cases tier <;> cases tier' <;> decide

theorem rank_lt_of_ne {tier tier' : Tier} (hle : tier.rank ≤ tier'.rank) (hne : tier ≠ tier') :
    tier.rank < tier'.rank := by
  apply Nat.lt_of_le_of_ne hle
  intro hrank
  exact hne (rank_inj hrank)

/-- Between two tiers there is the next tighter one, at most. -/
theorem rank_tighter_le {tier tier' : Tier} (h : tier.rank < tier'.rank) :
    tier.tighter.rank ≤ tier'.rank := by
  revert h
  cases tier <;> cases tier' <;> decide

theorem rank_lt_tighter {tier tier' : Tier} (h : tier.rank < tier'.rank) :
    tier.rank < tier.tighter.rank := by
  revert h
  cases tier <;> cases tier' <;> decide

/-- Operators join operands only at the tiers that are looser than `unary`. -/
theorem rank_lt_of_mem {tier : Tier} {kind : Kind} (h : kind ∈ tier.operators) :
    tier.rank < Tier.unary.rank := by
  cases tier with
  | unary | atom => exact absurd h List.not_mem_nil
  | _ => decide

end Tier

/-! ## Expressions with their trees -/

/-- `Derives tier tokens e`: the tokens are an expression of the tier, and `e` is its tree. -/
inductive Derives : Tier → List Token → Expr → Prop where
  | name {token : Token} (h : token.kind = .ident) :
      Derives .atom [token] (.identifier ⟨token, token.text⟩)
  | number {token : Token} (h : token.kind = .int) (hmax : token.value < Text.int64Bound) :
      Derives .atom [token] (.integer token token.value)
  | truth {token : Token} (h : token.kind = .trueWord ∨ token.kind = .falseWord) :
      Derives .atom [token] (.boolean token (token.kind == .trueWord))
  | group {opening closing : Token} {inner : List Token} {e : Expr}
      (hopen : opening.kind = .openParen) (h : Derives .equality inner e)
      (hclose : closing.kind = .closeParen) : Derives .atom (opening :: (inner ++ [closing])) e
  | unary {op : Token} {tokens : List Token} {e : Expr} (hop : op.kind = .not ∨ op.kind = .dash)
      (h : Derives .unary tokens e) : Derives .unary (op :: tokens) (.unary op op.text e)
  /-- Operators of a tier group to the left. -/
  | binary {tier : Tier} {op : Token} {left right : List Token} {e f : Expr}
      (hleft : Derives tier left e) (hop : op.kind ∈ tier.operators)
      (hright : Derives tier.tighter right f) :
      Derives tier (left ++ op :: right) (.binary op e op.text f)
  | tighter {tier : Tier} {tokens : List Token} {e : Expr} (h : Derives tier.tighter tokens e) :
      Derives tier tokens e

/-- An expression of a tier is one of all looser tiers. -/
theorem Derives.loosen {tier tier' : Tier} {tokens : List Token} {e : Expr}
    (h : Derives tier' tokens e) (hle : tier.rank ≤ tier'.rank) : Derives tier tokens e := by
  by_cases heq : tier = tier'
  · exact heq ▸ h
  · have hlt : tier.rank < tier'.rank := Tier.rank_lt_of_ne hle heq
    have hnext := Tier.rank_lt_tighter hlt
    exact .tighter (h.loosen (Tier.rank_tighter_le hlt))
termination_by tier'.rank - tier.rank

/-- One more operand behind an operator of the tier itself. -/
theorem Derives.binary_unary {tier : Tier} {op : Token} {left right : List Token} {e f : Expr}
    (h : Derives tier left e) (hop : op.kind ∈ tier.operators) (hright : Derives .unary right f) :
    Derives tier (left ++ op :: right) (.binary op e op.text f) :=
  .binary h hop (hright.loosen (Tier.rank_tighter_le (Tier.rank_lt_of_mem hop)))

/-- **One more operand at the right end.** The tokens are still an expression, whatever the tier of the
    operator; where the operand goes in the tree depends on the tier. -/
theorem Derives.snoc {tier tier' : Tier} {op : Token} {left right : List Token} {e f : Expr}
    (h : Derives tier left e) (hop : op.kind ∈ tier'.operators) (hle : tier.rank ≤ tier'.rank)
    (hright : Derives .unary right f) : ∃ g, Derives tier (left ++ op :: right) g := by
  by_cases heq : tier = tier'
  · subst heq
    exact ⟨_, h.binary_unary hop hright⟩
  · have hlt : tier.rank < tier'.rank := Tier.rank_lt_of_ne hle heq
    have hbinary := Tier.rank_lt_of_mem hop
    cases h with
    | name | number | truth | group | unary => exact absurd (Nat.lt_trans hlt hbinary) (by decide)
    | @binary _ inner left _ _ _ hleft hinner hmiddle =>
        -- A tighter operator takes the right operand only, and the rest of the tree stays.
        obtain ⟨g, hg⟩ := hmiddle.snoc hop (Tier.rank_tighter_le hlt) hright
        exact ⟨_, by simpa using Derives.binary hleft hinner hg⟩
    | tighter h =>
        obtain ⟨g, hg⟩ := h.snoc hop (Tier.rank_tighter_le hlt) hright
        exact ⟨g, .tighter hg⟩
termination_by tier'.rank - tier.rank
decreasing_by
  all_goals
    have hnext := Tier.rank_lt_tighter hlt
    omega

/-- The kinds that an expression can begin with. -/
def Kind.openers : List Kind := [ident, int, trueWord, falseWord, openParen, not, dash]

theorem Derives.exists_cons {tier : Tier} {tokens : List Token} {e : Expr}
    (h : Derives tier tokens e) :
    ∃ first rest, tokens = first :: rest ∧ first.kind ∈ Kind.openers := by
  induction h with
  | name h | number h => exact ⟨_, [], rfl, by simp [h, Kind.openers]⟩
  | truth h => exact ⟨_, [], rfl, by rcases h with h | h <;> simp [h, Kind.openers]⟩
  | group hopen => exact ⟨_, _, rfl, by simp [hopen, Kind.openers]⟩
  | unary hop => exact ⟨_, _, rfl, by rcases hop with h | h <;> simp [h, Kind.openers]⟩
  | binary _ _ _ ih =>
      obtain ⟨first, rest, rfl, hfirst⟩ := ih
      exact ⟨first, _, rfl, hfirst⟩
  | tighter _ ih => exact ih

/-! ## Expressions without trees -/

/-- The sorts of phrases in expressions. -/
inductive Phrase where
  | atom
  | operand
  | expression

/-- The operators between two operands. -/
def Kind.binaryOperators : List Kind :=
  [equal, notEqual, less, greater, plus, dash, star, slash]

/-- `IsPhrase phrase tokens`: the tokens are a phrase of the sort. An expression is a list of operands
    with operators between them, and an operand is an atom with any number of `!` and `-` in front. -/
inductive IsPhrase : Phrase → List Token → Prop where
  | name {token : Token} (h : token.kind = .ident) : IsPhrase .atom [token]
  | number {token : Token} (h : token.kind = .int) (hmax : token.value < Text.int64Bound) :
      IsPhrase .atom [token]
  | truth {token : Token} (h : token.kind = .trueWord ∨ token.kind = .falseWord) :
      IsPhrase .atom [token]
  | group {opening closing : Token} {inner : List Token} (hopen : opening.kind = .openParen)
      (h : IsPhrase .expression inner) (hclose : closing.kind = .closeParen) :
      IsPhrase .atom (opening :: (inner ++ [closing]))
  | bare {tokens : List Token} (h : IsPhrase .atom tokens) : IsPhrase .operand tokens
  | unary {op : Token} {tokens : List Token} (hop : op.kind = .not ∨ op.kind = .dash)
      (h : IsPhrase .operand tokens) : IsPhrase .operand (op :: tokens)
  | single {tokens : List Token} (h : IsPhrase .operand tokens) : IsPhrase .expression tokens
  | joined {op : Token} {left right : List Token} (hleft : IsPhrase .expression left)
      (hop : op.kind ∈ Kind.binaryOperators) (hright : IsPhrase .operand right) :
      IsPhrase .expression (left ++ op :: right)

/-- The sort of the phrases that a tier derives. -/
def Tier.phrase : Tier → Phrase
  | equality | comparison | sum | product => .expression
  | unary => .operand
  | atom => .atom

/-- The loosest tier that derives the phrases of a sort. -/
def Phrase.tier : Phrase → Tier
  | atom => .atom
  | operand => .unary
  | expression => .equality

theorem Tier.mem_binaryOperators {tier : Tier} {kind : Kind} (h : kind ∈ tier.operators) :
    kind ∈ Kind.binaryOperators := by
  cases tier <;> simp [operators] at h <;> rcases h with rfl | rfl <;> simp [Kind.binaryOperators]

theorem Tier.exists_of_mem {kind : Kind} (h : kind ∈ Kind.binaryOperators) :
    ∃ tier : Tier, kind ∈ tier.operators := by
  cases kind with
  | equal | notEqual => exact ⟨.equality, by simp [operators]⟩
  | less | greater => exact ⟨.comparison, by simp [operators]⟩
  | plus | dash => exact ⟨.sum, by simp [operators]⟩
  | star | slash => exact ⟨.product, by simp [operators]⟩
  | _ => simp [Kind.binaryOperators] at h

namespace IsPhrase

variable {phrase : Phrase} {op : Token} {left right tokens : List Token}

theorem expression (h : IsPhrase phrase tokens) : IsPhrase .expression tokens := by
  cases phrase with
  | atom => exact .single (.bare h)
  | operand => exact .single h
  | expression => exact h

theorem ne_nil (h : IsPhrase phrase tokens) : tokens ≠ [] := by
  induction h with
  | name | number | truth | group | unary => exact List.cons_ne_nil _ _
  | bare _ ih | single _ ih => exact ih
  | joined => simp

/-- **Two expressions with an operator between them** are an expression. -/
theorem append (hleft : IsPhrase .expression left) (hop : op.kind ∈ Kind.binaryOperators)
    (hright : IsPhrase .expression right) : IsPhrase .expression (left ++ op :: right) := by
  generalize hphrase : Phrase.expression = phrase at hright
  induction hright with
  | name | number | truth | group | bare | unary => exact nomatch hphrase
  | single h => exact .joined hleft hop h
  | joined _ hop' h ih => simpa using IsPhrase.joined (ih rfl) hop' h

/-- **A minus sign can be read in two ways.** An expression that begins with one carries on an
    expression in front of it. -/
theorem merge (hleft : IsPhrase .expression left) (hop : op.kind = .dash)
    (hright : IsPhrase phrase (op :: right)) : IsPhrase .expression (left ++ op :: right) := by
  generalize htokens : op :: right = tokens at hright
  induction hright generalizing right with
  | name h | number h | group h =>
      cases htokens
      simp [hop] at h
  | truth h =>
      cases htokens
      rcases h with h | h <;> simp [hop] at h
  | bare _ ih | single _ ih => exact htokens ▸ ih htokens
  | unary _ h =>
      -- The sign in front of the right expression becomes an operator between the two.
      cases htokens
      exact .joined hleft (by simp [hop, Kind.binaryOperators]) h
  | @joined _ first _ hfirst hop' h ih =>
      cases first with
      | nil => exact absurd rfl hfirst.ne_nil
      | cons a first =>
          obtain ⟨rfl, rfl⟩ := List.cons.inj htokens
          simpa using IsPhrase.joined (ih rfl) hop' h

/-- **Every phrase has a tree.** -/
theorem derives (h : IsPhrase phrase tokens) : ∃ e, Derives phrase.tier tokens e := by
  induction h with
  | name h => exact ⟨_, .name h⟩
  | number h hmax => exact ⟨_, .number h hmax⟩
  | truth h => exact ⟨_, .truth h⟩
  | group hopen _ hclose ih =>
      obtain ⟨e, he⟩ := ih
      exact ⟨e, .group hopen he hclose⟩
  | bare _ ih =>
      obtain ⟨e, he⟩ := ih
      exact ⟨e, .tighter he⟩
  | unary hop _ ih =>
      obtain ⟨e, he⟩ := ih
      exact ⟨_, .unary hop he⟩
  | single _ ih =>
      obtain ⟨e, he⟩ := ih
      exact ⟨e, he.loosen (by decide)⟩
  | joined _ hop _ ihleft ihright =>
      obtain ⟨e, he⟩ := ihleft
      obtain ⟨f, hf⟩ := ihright
      obtain ⟨tier, htier⟩ := Tier.exists_of_mem hop
      exact he.snoc htier (Nat.zero_le _) hf

end IsPhrase

theorem IsPhrase.of_tighter {tier : Tier} {tokens : List Token}
    (h : IsPhrase tier.tighter.phrase tokens) : IsPhrase tier.phrase tokens := by
  cases tier with
  | equality | comparison | sum | product => exact h.expression
  | unary => exact .bare h
  | atom => exact h

/-- **What a tier derives is a phrase of its sort.** -/
theorem Derives.isPhrase {tier : Tier} {tokens : List Token} {e : Expr}
    (h : Derives tier tokens e) : IsPhrase tier.phrase tokens := by
  induction h with
  | name h => exact .name h
  | number h hmax => exact .number h hmax
  | truth h => exact .truth h
  | group hopen _ hclose ih => exact .group hopen ih hclose
  | unary hop _ ih => exact .unary hop ih
  | @binary tier _ _ _ _ _ _ hop _ ihleft ihright =>
      -- The two tightest tiers have no operators.
      have hphrase : tier.phrase = .expression := by
        cases tier with
        | unary | atom => exact absurd hop List.not_mem_nil
        | _ => rfl
      rw [hphrase] at ihleft ⊢
      exact ihleft.append (Tier.mem_binaryOperators hop) ihright.expression
  | tighter _ ih => exact ih.of_tighter

/-! ## Statements -/

/-- `DerivesStmt tokens stmt`: the tokens are a statement without a semicolon, and `stmt` is its tree. -/
inductive DerivesStmt : List Token → Stmt → Prop where
  | bind {word name sign : Token} {tokens : List Token} {value : Expr}
      (hword : word.kind = .letWord) (hname : name.kind = .ident) (hsign : sign.kind = .assign)
      (h : Derives .equality tokens value) :
      DerivesStmt (word :: name :: sign :: tokens) (.bind word ⟨name, name.text⟩ value)
  | ret {word : Token} {tokens : List Token} {value : Expr} (hword : word.kind = .returnWord)
      (h : Derives .equality tokens value) : DerivesStmt (word :: tokens) (.ret word value)
  | expr {first : Token} {tokens : List Token} {value : Expr}
      (h : Derives .equality (first :: tokens) value) :
      DerivesStmt (first :: tokens) (.expr first value)

/-- The tokens are a statement without a semicolon. -/
inductive IsStatement : List Token → Prop where
  | bind {word name sign : Token} {tokens : List Token} (hword : word.kind = .letWord)
      (hname : name.kind = .ident) (hsign : sign.kind = .assign)
      (h : IsPhrase .expression tokens) : IsStatement (word :: name :: sign :: tokens)
  | ret {word : Token} {tokens : List Token} (hword : word.kind = .returnWord)
      (h : IsPhrase .expression tokens) : IsStatement (word :: tokens)
  | expr {tokens : List Token} (h : IsPhrase .expression tokens) : IsStatement tokens

/-- The tokens are a list of statements, each with a semicolon or without. -/
inductive IsProgram : List Token → Prop where
  | nil : IsProgram []
  | bare {left right : List Token} (hleft : IsStatement left) (h : IsProgram right) :
      IsProgram (left ++ right)
  | ended {left right : List Token} {semi : Token} (hleft : IsStatement left)
      (hsemi : semi.kind = .semicolon) (h : IsProgram right) : IsProgram (left ++ semi :: right)

/-- **Every statement has a tree.** -/
theorem IsStatement.derives {tokens : List Token} (h : IsStatement tokens) :
    ∃ stmt, DerivesStmt tokens stmt := by
  cases h with
  | bind hword hname hsign h =>
      obtain ⟨value, hvalue⟩ := h.derives
      exact ⟨_, .bind hword hname hsign hvalue⟩
  | ret hword h =>
      obtain ⟨value, hvalue⟩ := h.derives
      exact ⟨_, .ret hword hvalue⟩
  | expr h =>
      obtain ⟨value, hvalue⟩ := h.derives
      obtain ⟨first, rest, rfl, _⟩ := hvalue.exists_cons
      exact ⟨_, .expr hvalue⟩

theorem DerivesStmt.isStatement {tokens : List Token} {stmt : Stmt} (h : DerivesStmt tokens stmt) :
    IsStatement tokens := by
  cases h with
  | bind hword hname hsign h => exact .bind hword hname hsign h.isPhrase
  | ret hword h => exact .ret hword h.isPhrase
  | expr h => exact .expr h.isPhrase

/-- A statement goes on where an expression with a minus sign in front follows it. -/
theorem IsStatement.merge {left right : List Token} {op : Token} (h : IsStatement left)
    (hop : op.kind = .dash) (hright : IsPhrase .expression (op :: right)) :
    IsStatement (left ++ op :: right) := by
  cases h with
  | bind hword hname hsign h => exact .bind hword hname hsign (h.merge hop hright)
  | ret hword h => exact .ret hword (h.merge hop hright)
  | expr h => exact .expr (h.merge hop hright)

end LetLang
