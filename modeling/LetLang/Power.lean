/-!
# `LetLang.Power` — how tightly operators bind

Binding powers are linearly ordered: of two operators around an operand, the one of greater power takes
it.

## Contents
- `Power`, with `Power.name` and `Power.rank`.
- The order of powers, by rank.
-/

namespace LetLang

/-- The binding powers, weakest first. -/
inductive Power where
  | lowest
  | equals
  | lessGreater
  | sum
  | product
  | unary
  | call
  deriving DecidableEq, Repr

namespace Power

/-- The name of a power in messages. -/
def name : Power → String
  | lowest => "Lowest"
  | equals => "Equals"
  | lessGreater => "LessGreater"
  | sum => "Sum"
  | product => "Product"
  | unary => "Prefix"
  | call => "Call"

/-- Every power, weakest first. -/
def all : List Power := [lowest, equals, lessGreater, sum, product, unary, call]

/-- The power with a given name. -/
def ofName? (name : String) : Option Power :=
  all.find? fun power => power.name = name

/-- The place of a power in the order. -/
def rank : Power → Nat
  | lowest => 0
  | equals => 1
  | lessGreater => 2
  | sum => 3
  | product => 4
  | unary => 5
  | call => 6

instance : LT Power := ⟨fun p q => p.rank < q.rank⟩

instance : LE Power := ⟨fun p q => p.rank ≤ q.rank⟩

instance (p q : Power) : Decidable (p < q) := inferInstanceAs (Decidable (p.rank < q.rank))

instance (p q : Power) : Decidable (p ≤ q) := inferInstanceAs (Decidable (p.rank ≤ q.rank))

end Power

end LetLang
