import Kode.Operator
import Kode.Text.Order
import Kode.Value
import Kode.Value.Integer

/-!
# Operations on values

The meaning of the binary operators (`Operator.apply`).

Integers are added, subtracted and multiplied as whole numbers of any size, and
the result is refused if it leaves the range of 64 bits. Division rounds to the
lower integer, and the remainder has the sign of the divisor: both are made from
the quotient and the remainder of the machine, which round to zero, and it is
these that are refused if they are out of range. What is added to them then is
not guarded, and need not be (`Value.isSome_floorQuotient?`,
`Value.isSome_floorRemainder?`). A single `/` always divides floats. An integer
beside a float is taken as the nearest float.

Texts can be joined, repeated, indexed and compared; repetition is bounded
(`maxRepetition`), so that no small program builds an enormous text.
-/

namespace Kode

/-- Why an operator has no result for two values. -/
inductive Fault
  /-- The operator does not take values of these kinds. -/
  | unsupported
  | divisionByZero
  | overflow
  /-- There is no character with this index in a text of this length. -/
  | indexOutOfRange (index : Int64) (length : Nat)
  /-- Integers have no such bit. -/
  | invalidShift (amount : Int64)
deriving DecidableEq, Repr

namespace Value

/-- Two numbers of the same representation. -/
inductive Numbers
  | integers (a b : Int64)
  | floats (x y : Float)

/-- The two values as numbers of the same representation, if they are numbers. -/
def numbers? : Value → Value → Option Numbers
  | integer a, integer b => some (.integers a b)
  | integer a, float y => some (.floats a.toFloat y)
  | float x, integer b => some (.floats x b.toFloat)
  | float x, float y => some (.floats x y)
  | _, _ => Option.none

/-- An integer result, unless it is out of range. -/
def checked (n : Int) : Except Fault Value :=
  match ofInt? n with
  | some v => .ok v
  | Option.none => .error .overflow

/-- Arithmetic on two numbers: exact on integers, rounded on floats. -/
def arithmetic (exact : Int → Int → Int) (rounded : Float → Float → Float) (v w : Value) :
    Except Fault Value :=
  match numbers? v w with
  | some (.integers a b) => checked (exact a.toInt b.toInt)
  | some (.floats x y) => .ok (float (rounded x y))
  | Option.none => .error .unsupported

/-- The greatest number of bytes that a repeated text may have. -/
def maxRepetition : Nat := 0x1000000

/-- The text written `n` times over. -/
def repeated (text : String) (n : Nat) : String :=
  if text.isEmpty then text else Nat.repeat (· ++ text) n ""

/-- A text repeated so many times, none if the number is negative. Its length is
    known before it is written, if it is a size at all. -/
def repetition (text : String) (n : Int64) : Except Fault Value :=
  let count := (Integer.size? n).getD 0
  match Integer.sizeProduct? text.utf8ByteSize count with
  | some length =>
    if length ≤ maxRepetition then .ok (string (repeated text count)) else .error .overflow
  | Option.none => .error .overflow

/-- Sums; also two texts, one after the other. -/
def add : Value → Value → Except Fault Value
  | string s, string t => .ok (string (s ++ t))
  | v, w => arithmetic (· + ·) (· + ·) v w

/-- Products; also a text repeated. -/
def multiply : Value → Value → Except Fault Value
  | string s, integer n => repetition s n
  | integer n, string s => repetition s n
  | v, w => arithmetic (· * ·) (· * ·) v w

/-- The quotient as a float. -/
def divide (v w : Value) : Except Fault Value :=
  let quotient (x y : Float) : Except Fault Value :=
    if y == 0 then .error .divisionByZero else .ok (float (x / y))
  match numbers? v w with
  | some (.integers a b) => quotient a.toFloat b.toFloat
  | some (.floats x y) => quotient x y
  | Option.none => .error .unsupported

/-- The quotient rounded to the lower whole number. Only the division is guarded;
    there would be nothing at all if anything else left the range. -/
def floorQuotient? (a b : Int64) : Option (Except Fault Int64) :=
  match Integer.quotient? a b with
  | Option.none => some (.error .overflow)
  | some q =>
    (Integer.remainder? a b).bind fun r =>
      if r ≠ 0 ∧ ¬ (a < 0 ↔ b < 0) then (Integer.sub? q 1).map .ok else some (.ok q)

/-- What the quotient rounded to the lower whole number leaves. Only the remainder
    of the machine is guarded. -/
def floorRemainder? (a b : Int64) : Option (Except Fault Int64) :=
  match Integer.remainder? a b with
  | Option.none => some (.error .overflow)
  | some r =>
    if r ≠ 0 ∧ ¬ (r < 0 ↔ b < 0) then (Integer.add? r b).map .ok else some (.ok r)

theorem floorQuotient?_of_eq_none {a b : Int64} (h : Integer.quotient? a b = Option.none) :
    floorQuotient? a b = some (.error .overflow) := by
  rw [floorQuotient?, h]

theorem floorRemainder?_of_eq_none {a b : Int64} (h : Integer.quotient? a b = Option.none) :
    floorRemainder? a b = some (.error .overflow) := by
  rw [floorRemainder?, Integer.remainder?_eq_none_iff.2 h]

/-- Where there is a quotient, it can be rounded down. -/
theorem exists_floorQuotient? {a b q : Int64} (hq : Integer.quotient? a b = some q) :
    ∃ n : Int64, floorQuotient? a b = some (.ok n) ∧ n.toInt = a.toInt.fdiv b.toInt := by
  obtain ⟨hb, hqv⟩ := Integer.quotient?_eq_some_iff.1 hq
  obtain ⟨r, hr, hrv⟩ := Integer.exists_remainder? hq
  rw [← Integer.toInt_ne_zero] at hb
  rw [floorQuotient?, hq, Integer.fdiv_eq hb, ← hrv, ← hqv]
  simp only [hr, Option.bind_some, ← Integer.toInt_ne_zero, Integer.toInt_neg_iff]
  split
  · rename_i hround
    have hpred := Integer.inRange_pred_of_tmod (Integer.inRange_toInt a) hb (hrv ▸ hround.1)
    obtain ⟨n, hn, hnv⟩ := Integer.exists_of? (hqv ▸ hpred)
    exact ⟨n, congrArg (Option.map Except.ok) hn, hnv⟩
  · exact ⟨q, rfl, rfl⟩

/-- Where there is a quotient, what it leaves can be given the sign of the divisor. -/
theorem exists_floorRemainder? {a b q : Int64} (hq : Integer.quotient? a b = some q) :
    ∃ n : Int64, floorRemainder? a b = some (.ok n) ∧ n.toInt = a.toInt.fmod b.toInt := by
  have hb := Integer.toInt_ne_zero.2 (Integer.quotient?_eq_some_iff.1 hq).1
  obtain ⟨r, hr, hrv⟩ := Integer.exists_remainder? hq
  rw [floorRemainder?, hr, Integer.fmod_eq hb, ← hrv]
  simp only [← Integer.toInt_ne_zero, Integer.toInt_neg_iff]
  split
  · rename_i hround
    have hsum := Integer.inRange_add_of_tmod (a := a.toInt) (Integer.inRange_toInt b) hb
      (hrv ▸ hround.2)
    obtain ⟨n, hn, hnv⟩ := Integer.exists_of? (hrv ▸ hsum)
    exact ⟨n, congrArg (Option.map Except.ok) hn, hnv⟩
  · exact ⟨r, rfl, rfl⟩

/-- Nothing leaves the range that is not guarded. -/
theorem isSome_floorQuotient? (a b : Int64) : (floorQuotient? a b).isSome := by
  cases hq : Integer.quotient? a b with
  | none => rw [floorQuotient?_of_eq_none hq, Option.isSome_some]
  | some q =>
    obtain ⟨n, hn, -⟩ := exists_floorQuotient? hq
    rw [hn, Option.isSome_some]

theorem isSome_floorRemainder? (a b : Int64) : (floorRemainder? a b).isSome := by
  cases hq : Integer.quotient? a b with
  | none => rw [floorRemainder?_of_eq_none hq, Option.isSome_some]
  | some q =>
    obtain ⟨n, hn, -⟩ := exists_floorRemainder? hq
    rw [hn, Option.isSome_some]

/-- The quotient rounded to the lower whole number. -/
def floorDivide (v w : Value) : Except Fault Value :=
  match numbers? v w with
  | some (.integers a b) =>
    if b = 0 then .error .divisionByZero
    else ((floorQuotient? a b).get (isSome_floorQuotient? a b)).map integer
  | some (.floats x y) =>
    if y == 0 then .error .divisionByZero else .ok (float (x / y).floor)
  | Option.none => .error .unsupported

/-- What the rounded quotient leaves. There is no remainder where the machine has no
    quotient. -/
def modulo (v w : Value) : Except Fault Value :=
  match numbers? v w with
  | some (.integers a b) =>
    if b = 0 then .error .divisionByZero
    else ((floorRemainder? a b).get (isSome_floorRemainder? a b)).map integer
  | some (.floats x y) =>
    if y == 0 then .error .divisionByZero else .ok (float (x - y * (x / y).floor))
  | Option.none => .error .unsupported

/-- The place in a text of the given length that an index means: a negative
    one counts from the end. -/
def indexPlace? (length : Nat) (index : Int) : Option Nat :=
  if 0 ≤ index then some index.toNat
  else if index.natAbs ≤ length then some (length - index.natAbs)
  else Option.none

/-- The character of a text with the given index, as a text. -/
def characterAt : Value → Value → Except Fault Value
  | string s, integer i =>
    match (indexPlace? s.length i.toInt).bind fun n => s.toList[n]? with
    | some c => .ok (string (String.singleton c))
    | Option.none => .error (.indexOutOfRange i s.length)
  | _, _ => .error .unsupported

/-- A shift of the bits of an integer, by an amount that is given as an integer. -/
def shift (move? : Int64 → UInt32 → Option Int64) : Value → Value → Except Fault Value
  | integer a, integer n =>
    match (Integer.amount? n).bind (move? a) with
    | some b => .ok (integer b)
    | Option.none => .error (.invalidShift n)
  | _, _ => .error .unsupported

/-- The order of two numbers or two texts. A float that is not a number has no
    place in it. -/
def compare : Value → Value → Except Fault Ordering
  | string s, string t => .ok (Text.order s t)
  | v, w =>
    match numbers? v w with
    | some (.integers a b) => .ok (Ord.compare a.toInt b.toInt)
    | some (.floats x y) =>
      if x < y then .ok .lt else if y < x then .ok .gt
      else if x == y then .ok .eq else .error .unsupported
    | Option.none => .error .unsupported

/-- Equality. Values of different kinds are unequal, but numbers are compared
    as numbers. -/
def equals : Value → Value → Bool
  | string s, string t => s == t
  | boolean a, boolean b => a == b
  | none, none => true
  | v, w =>
    match numbers? v w with
    | some (.integers a b) => a == b
    | some (.floats x y) => x == y
    | Option.none => false

/-- An operation on the bits of integers, or on truth values. -/
def bitwise (bits : Int64 → Int64 → Int64) (truth : Bool → Bool → Bool) :
    Value → Value → Except Fault Value
  | integer a, integer b => .ok (integer (bits a b))
  | boolean a, boolean b => .ok (boolean (truth a b))
  | _, _ => .error .unsupported

/-- An operation on truth values. -/
def logical (truth : Bool → Bool → Bool) : Value → Value → Except Fault Value
  | boolean a, boolean b => .ok (boolean (truth a b))
  | _, _ => .error .unsupported

end Value

/-- The value that the operator gives for two values. -/
def Operator.apply (op : Operator) (v w : Value) : Except Fault Value :=
  match op with
  | .add => v.add w
  | .subtract => Value.arithmetic (· - ·) (· - ·) v w
  | .multiply => v.multiply w
  | .divide => v.divide w
  | .integerDivide => v.floorDivide w
  | .modulo => v.modulo w
  | .index => v.characterAt w
  | .shiftLeft => Value.shift Integer.shiftLeft? v w
  | .shiftRight => Value.shift Integer.shiftRight? v w
  | .less => (v.compare w).map fun o => .boolean (o == .lt)
  | .greater => (v.compare w).map fun o => .boolean (o == .gt)
  | .equal => .ok (.boolean (v.equals w))
  | .bitAnd => Value.bitwise (· &&& ·) (· && ·) v w
  | .bitXor => Value.bitwise (· ^^^ ·) (· != ·) v w
  | .bitOr => Value.bitwise (· ||| ·) (· || ·) v w
  | .and => Value.logical (· && ·) v w
  | .or => Value.logical (· || ·) v w

end Kode
