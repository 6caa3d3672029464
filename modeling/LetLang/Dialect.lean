import LetLang.Power
import LetLang.Token

/-!
# `LetLang.Dialect` — which tokens do what

Four tables say how each kind of token is used: whether it begins a statement of its own, how it begins an
expression, whether it joins two operands, and how tightly it binds as an operator. Whoever holds tables can
make entries for any kind, and each takes the place of an earlier one.

With some tables a parse would never end: behind the end of the input there is the end again, so one that
begins an operand, or joins two, could be taken for ever. A dialect is tables without such entries.

## Contents
- `StatementRule`, `OperandRule`: the ways to begin a statement and an expression.
- `Tables`: the uses of all kinds, with `Tables.powerOf`.
- `Entry`, `Tables.enter`: one use more.
- `Dialect`, `Dialect.enter`: tables that every parse comes to an end with.
- `Dialect.standard`: the language itself.
-/

namespace LetLang

/-- How a statement that begins at a token is read. -/
inductive StatementRule where
  /-- A name and an equals sign must follow, then the value. -/
  | bind
  /-- The value follows. -/
  | ret
  /-- The token already belongs to an expression. -/
  | expr
  deriving DecidableEq, Repr

/-- How an expression that begins at a token is read. -/
inductive OperandRule where
  /-- The token is a name. -/
  | identifier
  /-- The token is an integer. -/
  | integer
  /-- The token is one of the two truth values. -/
  | boolean
  /-- The token is an operator in front of its operand. -/
  | unary
  /-- The token opens a group. -/
  | group
  deriving DecidableEq, Repr

/-! ## Tables -/

/-- The uses of every kind of token. -/
structure Tables where
  /-- How a statement that begins at the kind is read, if not as an expression. -/
  statement : Kind → Option StatementRule
  /-- How an expression that begins at the kind is read, if one can. -/
  operand : Kind → Option OperandRule
  /-- Does the kind join two operands? -/
  joins : Kind → Bool
  /-- The power of the kind as an operator, if it has one. -/
  power : Kind → Option Power

/-- A use of a kind, as it is entered into tables. -/
inductive Entry where
  /-- Statements that begin at the kind are read by the rule. -/
  | statement (kind : Kind) (rule : StatementRule)
  /-- Expressions that begin at the kind are read by the rule. -/
  | operand (kind : Kind) (rule : OperandRule)
  /-- The kind is an operator between two operands, and binds by the power. -/
  | operator (kind : Kind) (power : Power)
  deriving DecidableEq, Repr

namespace Tables

/-- The power that a kind binds by. Kinds that are no operator bind as weakly as can be. -/
def powerOf (tables : Tables) (kind : Kind) : Power :=
  (tables.power kind).getD .lowest

/-- The table `table`, but with `value` at `kind`. -/
def assign {α : Type} (table : Kind → α) (kind : Kind) (value : α) : Kind → α :=
  fun k => if k = kind then value else table k

theorem assign_self {α : Type} (table : Kind → α) (kind : Kind) (value : α) :
    assign table kind value kind = value :=
  if_pos rfl

theorem assign_of_ne {α : Type} {table : Kind → α} {kind k : Kind} {value : α} (h : k ≠ kind) :
    assign table kind value k = table k :=
  if_neg h

/-- The tables with one entry more. An operator is entered into two of them. -/
def enter (tables : Tables) : Entry → Tables
  | .statement kind rule => { tables with statement := assign tables.statement kind (some rule) }
  | .operand kind rule => { tables with operand := assign tables.operand kind (some rule) }
  | .operator kind power =>
    { tables with
      joins := assign tables.joins kind true
      power := assign tables.power kind (some power) }

end Tables

/-- Would the end of the input begin an operand by the entry, or join two? -/
def Entry.atEnd : Entry → Bool
  | statement _ _ => false
  | operand kind _ => kind = .eof
  | operator kind _ => kind = .eof

theorem Tables.operand_enter (tables : Tables) {entry : Entry} (h : entry.atEnd = false) :
    (tables.enter entry).operand .eof = tables.operand .eof := by
  cases entry with
  | operand kind rule => exact assign_of_ne (Ne.symm (of_decide_eq_false h))
  | statement | operator => rfl

theorem Tables.joins_enter (tables : Tables) {entry : Entry} (h : entry.atEnd = false) :
    (tables.enter entry).joins .eof = tables.joins .eof := by
  cases entry with
  | operator kind power => exact assign_of_ne (Ne.symm (of_decide_eq_false h))
  | statement | operand => rfl

/-! ## Dialects -/

/-- Tables by which the end of the input begins no operand and joins none. -/
structure Dialect extends Tables where
  operand_eof : operand .eof = none := by rfl
  joins_eof : joins .eof = false := by rfl

namespace Dialect

/-- The dialect with one entry more. -/
def enter (d : Dialect) (entry : Entry) (h : entry.atEnd = false) : Dialect where
  toTables := d.toTables.enter entry
  operand_eof := (d.operand_enter h).trans d.operand_eof
  joins_eof := (d.joins_enter h).trans d.joins_eof

/-! ## The language -/

/-- The dialect in which no kind has any use. -/
def empty : Dialect where
  statement _ := none
  operand _ := none
  joins _ := false
  power _ := none

/-- The language: `let` and `return` statements, eight operators on four levels between operands, two
    operators in front of them, and groups in parentheses. -/
def standard : Dialect where
  statement
    | .letWord => some .bind
    | .returnWord => some .ret
    | _ => none
  operand
    | .ident => some .identifier
    | .int => some .integer
    | .trueWord | .falseWord => some .boolean
    | .not | .dash => some .unary
    | .openParen => some .group
    | _ => none
  joins
    | .equal | .notEqual | .less | .greater | .plus | .dash | .star | .slash => true
    | _ => false
  power
    | .equal | .notEqual => some .equals
    | .less | .greater => some .lessGreater
    | .plus | .dash => some .sum
    | .star | .slash => some .product
    | _ => none

end Dialect

end LetLang
