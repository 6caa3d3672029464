import LetLang.Text.Quoted

/-!
# `LetLang.Token` — kinds of token, reserved words, tokens

The source text of the language is read as a list of tokens. A token is a kind and the text it was read
from; the end of the input is a token of its own, so that there is always a next one.

## Contents
- `Kind`, with `Kind.name`: the kinds of token and the names that messages use for them.
- `Kind.reserved?`, `Kind.ofWord`: the reserved words, and the kind of a whole word.
- `Kind.ofSymbol?`: the kinds that are a single character.
- `Token`, with `Token.render` (kind and quoted text) and `Token.brief` (text only where it can vary).
-/

namespace LetLang

/-! ## Kinds -/

/-- What sort of thing a token is. -/
inductive Kind where
  | eof
  | illegal
  | ident
  | int
  | assign
  | plus
  | dash
  | not
  | slash
  | star
  | less
  | greater
  | equal
  | notEqual
  | comma
  | semicolon
  | openParen
  | closeParen
  | openCurly
  | closeCurly
  | letWord
  | fnWord
  | trueWord
  | falseWord
  | ifWord
  | elseWord
  | returnWord
  deriving DecidableEq, Repr

namespace Kind

/-- The name of a kind in messages. A kind with a fixed spelling in symbols is named by it. -/
def name : Kind → String
  | eof => "EOF"
  | illegal => "ILLEGAL"
  | ident => "IDENT"
  | int => "INT"
  | assign => "="
  | plus => "+"
  | dash => "-"
  | not => "!"
  | slash => "/"
  | star => "*"
  | less => "<"
  | greater => ">"
  | equal => "=="
  | notEqual => "!="
  | comma => ","
  | semicolon => ";"
  | openParen => "("
  | closeParen => ")"
  | openCurly => "\x7b"
  | closeCurly => "\x7d"
  | letWord => "LET"
  | fnWord => "FUNCTION"
  | trueWord => "TRUE"
  | falseWord => "FALSE"
  | ifWord => "IF"
  | elseWord => "ELSE"
  | returnWord => "RETURN"

/-- Every kind, each once. -/
def all : List Kind :=
  [eof, illegal, ident, int, assign, plus, dash, not, slash, star, less, greater, equal, notEqual,
    comma, semicolon, openParen, closeParen, openCurly, closeCurly, letWord, fnWord, trueWord,
    falseWord, ifWord, elseWord, returnWord]

/-- The kind with a given name. -/
def ofName? (name : String) : Option Kind :=
  all.find? fun kind => kind.name = name

/-- The kind of a reserved word; `none` for every other word. -/
def reserved? : String → Option Kind
  | "fn" => some fnWord
  | "let" => some letWord
  | "true" => some trueWord
  | "false" => some falseWord
  | "if" => some ifWord
  | "else" => some elseWord
  | "return" => some returnWord
  | _ => none

/-- The kind of a whole word: reserved words have their own, all others are identifiers. -/
def ofWord (word : String) : Kind :=
  (reserved? word).getD ident

/-- The kind whose tokens are the single character `c`. -/
def ofSymbol? : Char → Option Kind
  | '=' => some assign
  | '!' => some not
  | '+' => some plus
  | '-' => some dash
  | '/' => some slash
  | '*' => some star
  | '<' => some less
  | '>' => some greater
  | ',' => some comma
  | ';' => some semicolon
  | '(' => some openParen
  | ')' => some closeParen
  | '\x7b' => some openCurly
  | '\x7d' => some closeCurly
  | _ => none

end Kind

/-! ## Tokens -/

/-- A kind of token with the text it stands for. -/
structure Token where
  kind : Kind
  text : String
  deriving DecidableEq, Repr

namespace Token

/-- The token that ends every input. -/
def eof : Token := ⟨.eof, ""⟩

/-- Is the token of one of the given kinds? -/
def isOneOf (token : Token) (kinds : List Kind) : Bool :=
  kinds.contains token.kind

/-- Kind and quoted text, for a given notion of printable character. -/
def renderWith (printable : Char → Bool) (token : Token) : String :=
  token.kind.name ++ "(" ++ Text.quoteWith printable token.text ++ ")"

/-- Kind and quoted text, as messages show a token. -/
def render (token : Token) : String :=
  token.renderWith Text.isPrintable

/-- One line about the token. Its text is shown, as it is, only for the kinds whose text varies. -/
def brief (token : Token) : String :=
  if token.isOneOf [.ident, .int, .illegal] then token.kind.name ++ " (" ++ token.text ++ ")"
  else token.kind.name ++ " ()"

end Token

end LetLang
