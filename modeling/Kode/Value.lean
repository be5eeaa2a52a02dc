import Kode.Decimal.Layout
import Kode.Span

/-!
# Values

What expressions evaluate to: texts, integers of 64 bits with a sign, floats,
truth values, and `none`, the value of statements that have nothing to say. A
value is shown as text without quotes (`Value.shown`).

The evaluator keeps with every value the span of the program that it was
computed from (`Located`), so that what goes wrong with it later can be
pointed at.
-/

namespace Kode

/-- A runtime value. -/
inductive Value
  | string (text : String)
  | integer (n : Int64)
  | float (x : Float)
  | boolean (b : Bool)
  | none
deriving DecidableEq

/-- The kind of a value, as named in messages. -/
inductive ValueKind
  | string | integer | float | boolean | none
deriving DecidableEq, Repr

/-- The name of the kind. -/
def ValueKind.name : ValueKind → String
  | string => "string"
  | integer => "integer"
  | float => "float"
  | boolean => "boolean"
  | none => "none"

namespace Value

/-- The kind of the value. -/
def kind : Value → ValueKind
  | string _ => .string
  | integer _ => .integer
  | float _ => .float
  | boolean _ => .boolean
  | none => .none

/-- The text that stands for the value when it is shown. -/
def shown : Value → String
  | string text => text
  | integer n => toString n.toInt
  | float x => Decimal.writeFloat x
  | boolean true => "TRUE"
  | boolean false => "FALSE"
  | none => "NONE"

/-- The integer value, if the number is in the range of 64 bits with a sign. -/
def ofInt? (n : Int) : Option Value :=
  if -9223372036854775808 ≤ n ∧ n ≤ 9223372036854775807 then some (integer (Int64.ofInt n)) else Option.none

theorem ofInt?_toInt (n : Int64) : ofInt? n.toInt = some (integer n) := by
  rw [ofInt?, if_pos ⟨n.le_toInt, Int.le_of_lt_add_one n.toInt_lt⟩, Int64.ofInt_toInt]

theorem ofInt?_eq_some {n : Int} {v : Value} (h : ofInt? n = some v) :
    ∃ m : Int64, v = integer m ∧ m.toInt = n := by
  unfold ofInt? at h
  split at h
  · rename_i hn
    exact ⟨Int64.ofInt n, (Option.some.inj h).symm,
      Int64.toInt_ofInt_of_le hn.1 (Int.lt_add_one_of_le hn.2)⟩
  · exact absurd h (by simp)

/-- A number out of range is no integer value, and nothing else fails. -/
theorem ofInt?_eq_none_iff (n : Int) :
    ofInt? n = Option.none ↔ n < -9223372036854775808 ∨ 9223372036854775807 < n := by
  unfold ofInt?
  split <;> simp <;> omega

end Value

/-- A value together with the span of what it was computed from. -/
structure Located where
  value : Value
  span : Span
deriving DecidableEq

/-- The same value, attributed to another span. -/
def Located.at (l : Located) (span : Span) : Located :=
  ⟨l.value, span⟩

end Kode
