import Kode.Report
import Kode.Value.Operation

/-!
# Runtime errors

What can go wrong while a program runs. Every error points at the part of the
program that it comes from, and at both operands if an operator does not take
them.
-/

namespace Kode

/-- Why a program stops. -/
inductive RuntimeFault
  | undefinedVariable (name : String)
  /-- The condition of an `IF` or `WHILE` is neither true nor false. -/
  | nonBooleanCondition (found : ValueKind)
  | unsupportedOperands (op : Operator) (lhs rhs : ValueKind)
  | divisionByZero
  | overflow (op : Operator)
  | indexOutOfRange (index : Int64) (length : Nat)
  | invalidShift (amount : Int64)
  /-- There is no further line of input. -/
  | inputExhausted
  /-- The input could not be read, for the reason given. -/
  | inputFailed (reason : String)
deriving DecidableEq, Repr

/-- The message for people. -/
def RuntimeFault.message : RuntimeFault → String
  | undefinedVariable name => "undefined variable '" ++ name ++ "'"
  | nonBooleanCondition found => "condition must be a boolean, found " ++ found.name
  | unsupportedOperands op lhs rhs =>
    "operator '" ++ op.symbol ++ "' does not support " ++ lhs.name ++ " and " ++ rhs.name
  | divisionByZero => "division by zero"
  | overflow op => "integer overflow in '" ++ op.symbol ++ "'"
  | indexOutOfRange index length =>
    "index " ++ toString index.toInt ++ " out of range for string of length " ++ toString length
  | invalidShift amount => "invalid shift amount " ++ toString amount.toInt
  | inputExhausted => "no more input lines"
  | inputFailed reason => "failed to read input: " ++ reason

/-- A fault and where it comes from. -/
structure RuntimeError where
  fault : RuntimeFault
  span : Span
  /-- The second operand, if it is to blame as well. -/
  second : Option Span
deriving DecidableEq

namespace RuntimeError

/-- A fault with a single place. -/
def single (fault : RuntimeFault) (span : Span) : RuntimeError :=
  ⟨fault, span, none⟩

/-- The places that the error points at. -/
def spans (e : RuntimeError) : List Span :=
  e.span :: e.second.toList

/-- The error as a report. -/
def report (e : RuntimeError) : String :=
  Report.render "InterpreterError" e.fault.message e.spans

/-- The error of an operator that failed on two operands. -/
def ofFault (op : Operator) (lhs rhs : Located) : Fault → RuntimeError
  | .unsupported =>
    ⟨.unsupportedOperands op lhs.value.kind rhs.value.kind, lhs.span, some rhs.span⟩
  | .divisionByZero => single .divisionByZero (lhs.span.merge rhs.span)
  | .overflow => single (.overflow op) (lhs.span.merge rhs.span)
  | .indexOutOfRange index length =>
    single (.indexOutOfRange index length) (lhs.span.merge rhs.span)
  | .invalidShift amount => single (.invalidShift amount) (lhs.span.merge rhs.span)

end RuntimeError

end Kode
