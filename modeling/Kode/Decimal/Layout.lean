import Kode.Decimal.Shortest
import Kode.Text.Digits

/-!
# Floats as text

How a float is written and read. It is written with the fewest digits that
read back as the same float, in positional notation with at least one digit on
either side of the point, or with an exponent where positional notation would
need many zeros (`Decimal.Layout`). What is written can be read, and so can
every other decimal (`Decimal.read?`).
-/

namespace Kode.Decimal

/-- Which decimals are written in positional notation: those whose magnitude is
    at least `least` and below `limit`. -/
structure Layout where
  least : Int
  limit : Int

/-- From `10 ^ -4` up to, but not including, `10 ^ 16`. -/
def Layout.standard : Layout := ⟨-4, 16⟩

/-- The digits with the point after the digit for the units. -/
def positional (d : Decimal) : List Char :=
  if d.magnitude < 0 then
    '0' :: '.' :: List.replicate (d.magnitude.natAbs - 1) '0' ++ d.digits
  else
    let units := d.magnitude.natAbs + 1
    let whole := d.digits.take units
    let fraction := d.digits.drop units
    whole ++ List.replicate (units - whole.length) '0' ++
      '.' :: (if fraction.isEmpty then ['0'] else fraction)

/-- The digits with the point after the first one, if there are more, and the
    power of ten. -/
def scientific (d : Decimal) : List Char :=
  let fraction := d.digits.drop 1
  d.digits.take 1 ++ (if fraction.isEmpty then [] else '.' :: fraction) ++
    'e' :: (toString d.magnitude).toList

/-- The decimal in the notation that the layout gives it. -/
def write (layout : Layout) (d : Decimal) : String :=
  String.ofList <|
    if layout.least ≤ d.magnitude ∧ d.magnitude < layout.limit then d.positional
    else d.scientific

/-- Puts a minus in front of the text of a negative number. -/
def signed (negative : Bool) (text : String) : String :=
  if negative then "-" ++ text else text

/-- The text of what the bits of a float stand for. -/
def writeClass : FloatClass → String
  | .nan => "NaN"
  | .infinite negative => signed negative "inf"
  | .zero negative => signed negative "0.0"
  | .finite negative magnitude => signed negative (magnitude.shortest.write .standard)

/-- The text of a float. -/
def writeFloat (x : Float) : String :=
  writeClass (FloatClass.ofBits x.toBits)

/-- An exponent: digits, perhaps with a sign. -/
def readExponent? : List Char → Option Int
  | '+' :: cs => if Text.isDigits cs then some (Text.value cs) else none
  | '-' :: cs => if Text.isDigits cs then some (-(Text.value cs : Int)) else none
  | cs => if Text.isDigits cs then some (Text.value cs) else none

/-- Digits, perhaps with a point and more digits after them, and perhaps with
    an exponent. -/
def read? (cs : List Char) : Option Decimal := do
  let isMark := fun c => c = 'e' ∨ c = 'E'
  let mantissa := cs.takeWhile fun c => ¬ isMark c
  let exponent ← match cs.drop mantissa.length with
    | [] => some 0
    | _ :: rest => readExponent? rest
  let whole := mantissa.takeWhile (· ≠ '.')
  let fraction ← match mantissa.drop whole.length with
    | [] => some []
    | _ :: rest => if Text.isDigits rest then some rest else none
  if Text.isDigits whole then
    some ⟨Text.value (whole ++ fraction), exponent - fraction.length⟩
  else none

/-- The float that a text denotes: a decimal, an infinity or the float that is
    not a number. -/
def readFloat? (text : String) : Option Float :=
  let (negative, cs) := Text.splitSign text.toList
  let magnitude? :=
    if cs = "inf".toList then some (Float.ofBits 0x7FF0000000000000)
    else if cs = "NaN".toList then some (Float.ofBits 0x7FF8000000000000)
    else (read? cs).map toFloat
  magnitude?.map fun x => if negative then -x else x

example : (⟨25, -1⟩ : Decimal).write .standard = "2.5" := by decide +kernel

example : (⟨3, 0⟩ : Decimal).write .standard = "3.0" := by decide +kernel

example : (⟨1, -4⟩ : Decimal).write .standard = "0.0001" := by decide +kernel

example : (⟨15, -6⟩ : Decimal).write .standard = "1.5e-5" := by decide +kernel

example : (⟨1, 16⟩ : Decimal).write .standard = "1e16" := by decide +kernel

example : read? "12.50e-3".toList = some ⟨1250, -5⟩ := by decide +kernel

end Kode.Decimal
