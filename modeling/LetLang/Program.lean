import LetLang.Expr

/-!
# `LetLang.Program` — statements and programs

A program is a list of statements: a name is bound to a value, a value is returned, or an expression
stands alone.

## Contents
- `Stmt`, with its token and its text.
- `Program`, with `Program.literal` (the text of the very first token) and `Program.render`, one
  statement a line.
-/

namespace LetLang

/-! ## Statements -/

/-- A statement, with the token that it starts at. -/
inductive Stmt where
  | bind (token : Token) (name : Identifier) (value : Expr)
  | ret (token : Token) (value : Expr)
  | expr (token : Token) (value : Expr)
  deriving DecidableEq, Repr

namespace Stmt

/-- The token that the statement starts at. -/
def token : Stmt → Token
  | bind token _ _ => token
  | ret token _ => token
  | expr token _ => token

/-- The text of a statement. The two with a word in front are spelled with the text of their token. -/
def render : Stmt → String
  | bind token name value => token.text ++ " " ++ name.name ++ " = " ++ value.render ++ ";"
  | ret token value => token.text ++ " " ++ value.render ++ ";"
  | expr _ value => value.render

end Stmt

/-! ## Programs -/

/-- A list of statements. -/
structure Program where
  statements : List Stmt
  deriving DecidableEq, Repr

namespace Program

/-- The text of the first statement's token, empty if there is no statement. -/
def literal (program : Program) : String :=
  (program.statements.head?.map fun statement => statement.token.text).getD ""

/-- The statements, one a line. -/
def render (program : Program) : String :=
  "\n".intercalate (program.statements.map Stmt.render)

end Program

end LetLang
