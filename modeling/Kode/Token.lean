import Kode.Keyword
import Kode.Operator
import Kode.Value

/-!
# Tokens

The words of a program: literals, keywords, operators, names and punctuation.
A token keeps the text it was written with, which is what a formatted program
shows again, and the span where it stands.

A minus is punctuation, because a minus in front of digits is part of a
number; between two operands it subtracts (`Token.operator?`).
-/

namespace Kode

/-- The punctuation that survives as tokens of its own. -/
inductive Punctuation
  | period | minus
deriving DecidableEq, Repr

namespace Punctuation

/-- The character itself. -/
def text : Punctuation → String
  | period => "."
  | minus => "-"

/-- The punctuation with this text. -/
def ofText? (t : String) : Option Punctuation :=
  if t = "." then some period else if t = "-" then some minus else none

end Punctuation

/-- What a token is. -/
inductive TokenKind
  | literal (value : Value)
  | keyword (word : Keyword)
  | operator (op : Operator)
  | identifier
  | punctuation (mark : Punctuation)
deriving DecidableEq

/-- A word of a program. -/
structure Token where
  kind : TokenKind
  /-- The token as it was written. -/
  text : String
  span : Span
deriving DecidableEq

namespace Token

/-- The operator that the token stands for between two operands. -/
def operator? (t : Token) : Option Operator :=
  match t.kind with
  | .operator op => some op
  | .punctuation .minus => some .subtract
  | _ => none

/-- The keyword that the token is, if it is one. -/
def keyword? (t : Token) : Option Keyword :=
  match t.kind with
  | .keyword word => some word
  | _ => none

/-- Whether the token is this keyword. -/
def isKeyword (word : Keyword) (t : Token) : Bool :=
  t.keyword? = some word

/-- Whether the token is a period. -/
def isPeriod (t : Token) : Bool :=
  t.kind = .punctuation .period

/-- Whether the token is a name. -/
def isIdentifier (t : Token) : Bool :=
  t.kind = .identifier

/-- Whether the token is a literal. -/
def isLiteral (t : Token) : Bool :=
  match t.kind with
  | .literal _ => true
  | _ => false

/-- Whether the token can stand beside an operator: a literal, a name or
    `INPUT`. -/
def isOperand (t : Token) : Bool :=
  t.isLiteral || t.isIdentifier || t.isKeyword .INPUT

/-- The least span that covers all of the tokens. -/
def spanOf (ts : List Token) : Span :=
  Span.mergeAll (ts.map Token.span)

@[simp] theorem spanOf_nil : spanOf [] = .empty := rfl

@[simp] theorem spanOf_cons (t : Token) (ts : List Token) :
    spanOf (t :: ts) = t.span.merge (spanOf ts) := by
  simp [spanOf]

end Token

/-- What the next token is required to be. -/
inductive Pattern
  | literal
  | identifier
  /-- Anything that can stand between two operands. -/
  | operator
  | keyword (word : Keyword)
  | punctuation (mark : Punctuation)
deriving DecidableEq, Repr

namespace Pattern

/-- Whether the token is what the pattern asks for. -/
def isMetBy (p : Pattern) (t : Token) : Bool :=
  match p with
  | literal => t.isLiteral
  | identifier => t.isIdentifier
  | operator => t.operator?.isSome
  | keyword word => t.isKeyword word
  | punctuation mark => t.kind = .punctuation mark

/-- The pattern as named in messages. -/
def description : Pattern → String
  | literal => "a literal"
  | identifier => "an identifier"
  | operator => "an operator"
  | keyword word => word.word
  | punctuation mark => "'" ++ mark.text ++ "'"

end Pattern

end Kode
