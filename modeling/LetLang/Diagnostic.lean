import LetLang.Token

/-!
# `LetLang.Diagnostic` — what can be wrong with a source

A diagnostic says why an attempt at a statement failed. There are three causes, and every failed
attempt has exactly one of them.

## Contents
- `Diagnostic`: the causes, with `Diagnostic.name` and `Diagnostic.message`.
- `Tip`, `Diagnostic.tip`: the advice that goes with a diagnostic.
-/

namespace LetLang

/-! ## Tips -/

/-- Advice on how to mend a source. -/
inductive Tip where
  | none
  | suggestion (text : String)
  deriving DecidableEq, Repr

/-- The text of a tip, empty if there is no advice. -/
def Tip.text : Tip → String
  | none => ""
  | suggestion text => text

/-! ## Diagnostics -/

/-- Why an attempt at a statement failed. -/
inductive Diagnostic where
  /-- One kind of token had to come next, and another did. -/
  | unexpectedToken (expected got : Kind)
  /-- A token of this kind cannot start an expression. -/
  | noOperand (kind : Kind)
  /-- This text is no integer of the language. -/
  | badInteger (text : String)
  deriving DecidableEq, Repr

namespace Diagnostic

/-- The name of the cause. -/
def name : Diagnostic → String
  | unexpectedToken _ _ => "UnexpectedToken"
  | noOperand _ => "NoPrefixParseFn"
  | badInteger _ => "NumberParseError"

/-- The message for a given notion of printable character. -/
def messageWith (printable : Char → Bool) : Diagnostic → String
  | unexpectedToken expected got =>
    "expected next token to be " ++ expected.name ++ ", got " ++ got.name
  | noOperand kind => "no prefix parse function for " ++ kind.name ++ " found"
  | badInteger text => "could not parse " ++ Text.quoteWith printable text ++ " as integer"

/-- The message. -/
def message (d : Diagnostic) : String :=
  d.messageWith Text.isPrintable

/-- The advice that goes with a diagnostic. A name is expected only behind `let`. -/
def tip : Diagnostic → Tip
  | unexpectedToken .ident _ => .suggestion "`let` must be followed by a name"
  | unexpectedToken expected _ => .suggestion ("Insert `" ++ expected.name ++ "` here")
  | noOperand .illegal => .suggestion "This character is not part of the language"
  | noOperand kind => .suggestion ("`" ++ kind.name ++ "` cannot start an expression")
  | badInteger _ => .suggestion "Integers must fit in a signed 64-bit value"

end Diagnostic

end LetLang
