import Kode.Report
import Kode.Token

/-!
# Parse errors

What can be wrong with the text of a program, from a character that begins no
word to blocks nested too deeply. Every error points at one span.
-/

namespace Kode

/-- Why a text is not a program. -/
inductive ParseFault
  /-- A lexeme that is no word of the language. -/
  | unrecognizedToken
  /-- A quote without a second one. -/
  | unterminatedString
  /-- A number out of range. -/
  | invalidLiteral
  /-- A part of a statement ran to the end without the token that ends it. -/
  | missingTerminator (expected : Pattern)
  /-- `SET` without a name after it. -/
  | expectedIdentifier
  | expectedKeyword (expected : Keyword)
  /-- Nothing stands where a value should. -/
  | expectedExpression
  /-- An `IF` or `WHILE` without its `END`. -/
  | unclosedBlock
  /-- A second `ELSE` for the same `IF`. -/
  | duplicateElse
  /-- Tokens that begin no statement. -/
  | noRuleMatches
  /-- Operands with no operator between them. -/
  | missingOperator
  /-- An operator with nothing on one side. -/
  | missingOperand (op : Operator)
  /-- Values and blocks nested past the limit. -/
  | nestingTooDeep (limit : Nat)
deriving DecidableEq, Repr

/-- The message for people. -/
def ParseFault.message : ParseFault → String
  | unrecognizedToken => "unrecognized token"
  | unterminatedString => "unterminated string"
  | invalidLiteral => "invalid literal"
  | missingTerminator expected => "expected " ++ expected.description ++ " before end of input"
  | expectedIdentifier => "expected an identifier after SET"
  | expectedKeyword expected => "expected " ++ expected.word
  | expectedExpression => "expected an expression"
  | unclosedBlock => "block not closed, expected END"
  | duplicateElse => "conditional has more than one ELSE"
  | noRuleMatches => "could not match any statement to tokens"
  | missingOperator => "expected an operator between operands"
  | missingOperand op => "operator '" ++ op.symbol ++ "' is missing an operand"
  | nestingTooDeep limit => "nesting deeper than " ++ toString limit ++ " levels"

/-- A fault and where it is. -/
structure ParseError where
  fault : ParseFault
  span : Span
deriving DecidableEq

/-- The error as a report. -/
def ParseError.report (e : ParseError) : String :=
  Report.render "ParseError" e.fault.message [e.span]

end Kode
