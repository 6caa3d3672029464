import LetLang.Text.Decimal
import LetLang.Token

/-!
# `LetLang.Expr` — expressions

An expression is a tree. Every node carries the token that it was read from next to the value that it
stands for; the two may differ in a tree built by hand, and equality of trees compares both.

## Contents
- `Identifier`, `Expr`.
- `Expr.token`: the token of the root.
- `Expr.render`: the text of an expression, with parentheses around every operation.
-/

namespace LetLang

/-- A name, with the token that it was read from. -/
structure Identifier where
  token : Token
  name : String
  deriving DecidableEq, Repr

/-- An expression. Operators are kept by their spelling. -/
inductive Expr where
  | identifier (id : Identifier)
  | integer (token : Token) (value : Int)
  | boolean (token : Token) (value : Bool)
  | unary (token : Token) (operator : String) (right : Expr)
  | binary (token : Token) (left : Expr) (operator : String) (right : Expr)
  deriving DecidableEq, Repr

namespace Expr

/-- The token of the root. -/
def token : Expr → Token
  | identifier id => id.token
  | integer token _ => token
  | boolean token _ => token
  | unary token _ _ => token
  | binary token _ _ _ => token

/-- The text of an expression. Operations stand in parentheses, so the text has only one reading. -/
def render : Expr → String
  | identifier id => id.name
  | integer _ value => Text.decimal value
  | boolean _ true => "true"
  | boolean _ false => "false"
  | unary _ operator right => "(" ++ operator ++ right.render ++ ")"
  | binary _ left operator right => "(" ++ left.render ++ operator ++ right.render ++ ")"

end Expr

end LetLang
