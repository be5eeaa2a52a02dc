/-!
# Operators

The seventeen binary operators: how they are spelled, in source text and when
printed, and how tightly they bind. An operator may have several spellings,
words among them, which may be written in any mixture of upper and lower case.
Three operators can also be written as two words.
-/

namespace Kode

/-- A binary operator. -/
inductive Operator
  | add | subtract | multiply | divide | integerDivide | modulo | index
  | shiftLeft | shiftRight | less | greater | equal
  | bitAnd | bitXor | bitOr | and | or
deriving DecidableEq, Repr

namespace Operator

/-- All operators. -/
def all : List Operator :=
  [add, subtract, multiply, divide, integerDivide, modulo, index, shiftLeft, shiftRight, less,
   greater, equal, bitAnd, bitXor, bitOr, and, or]

/-- The spelling used when a program is printed. -/
def symbol : Operator → String
  | add => "+"
  | subtract => "-"
  | multiply => "*"
  | divide => "/"
  | integerDivide => "//"
  | modulo => "%"
  | index => "AT"
  | shiftLeft => "<<"
  | shiftRight => ">>"
  | less => "<"
  | greater => ">"
  | equal => "="
  | bitAnd => "&"
  | bitXor => "^"
  | bitOr => "|"
  | and => "AND"
  | or => "OR"

/-- The spellings by a single word, letters in upper case. A bare minus is
    none of them: alone it is punctuation, which subtracts only where an
    operator can stand. -/
def words : Operator → List String
  | add => ["+", "PLUS"]
  | subtract => ["MINUS"]
  | multiply => ["*", "TIMES"]
  | divide => ["/", "DIVIDE"]
  | integerDivide => ["//", "DIV"]
  | modulo => ["%", "MOD"]
  | index => ["AT"]
  | shiftLeft => ["<<"]
  | shiftRight => [">>"]
  | less => ["<"]
  | greater => [">"]
  | equal => ["=", "EQUALS"]
  | bitAnd => ["&"]
  | bitXor => ["^", "XOR"]
  | bitOr => ["|"]
  | and => ["AND"]
  | or => ["OR"]

/-- The spelling by two words, if the operator has one. -/
def phrase? : Operator → Option (String × String)
  | less => some ("LESS", "THAN")
  | greater => some ("GREATER", "THAN")
  | equal => some ("EQUAL", "TO")
  | _ => none

/-- The operator that is spelled by this word, in any case. -/
def ofWord? (w : String) : Option Operator :=
  all.find? fun o => w.toUpper ∈ o.words

/-- The operator that is spelled by these two words, in any case. -/
def ofPhrase? (first second : String) : Option Operator :=
  all.find? fun o => o.phrase? = some (first.toUpper, second.toUpper)

/-- How tightly the operator binds its operands. -/
def rank : Operator → Nat
  | multiply | divide | integerDivide | modulo | index => 15
  | add | subtract => 14
  | shiftLeft | shiftRight => 13
  | less | greater => 12
  | equal => 11
  | bitAnd => 10
  | bitXor => 9
  | bitOr => 8
  | and => 7
  | or => 6

end Operator

end Kode
