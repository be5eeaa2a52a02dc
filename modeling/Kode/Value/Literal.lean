import Kode.Value

/-!
# Literals

Which texts denote a value by themselves: quoted texts, integers, floats with
digits on both sides of the point, and the words `TRUE`, `FALSE` and `NONE` in
any mixture of upper and lower case. A line of input is taken for a value by
the same rules (`Value.ofInput`), so that a program reads what it could have
said.
-/

namespace Kode.Value

/-- The two quotes. A text begins and ends with the same one. -/
def quotes : List Char := ['"', '\'']

/-- What stands between two quotes of the kind `q`, of which the first has
    been read. The text may hold quotes of that kind, but has to end in one. -/
def unquote? (q : Char) (cs : List Char) : Option (List Char) :=
  if cs.getLast? = some q then some cs.dropLast else Option.none

/-- Digits, a point and digits: the digits and the number of those after the
    point. -/
def fractional? (cs : List Char) : Option (List Char × Nat) :=
  let whole := cs.takeWhile (· ≠ '.')
  let fraction := cs.drop (whole.length + 1)
  if Text.isDigits whole ∧ Text.isDigits fraction then
    some (whole ++ fraction, fraction.length)
  else Option.none

/-- The float with these digits, of which so many stand after the point. -/
def ofDigits (negative : Bool) (digits : List Char) (places : Nat) : Value :=
  let x := Decimal.toFloat ⟨Text.value digits, -places⟩
  float (if negative then -x else x)

/-- The value that is named by a word. -/
def ofWord? (w : String) : Option Value :=
  match w.toUpper with
  | "TRUE" => some (boolean true)
  | "FALSE" => some (boolean false)
  | "NONE" => some none
  | _ => Option.none

/-- The value that the text denotes, if it is a literal. -/
def ofLiteral? (text : String) : Option Value :=
  match text.toList with
  | [] => Option.none
  | c :: cs =>
    if c ∈ quotes then
      (unquote? c cs).map fun inner => string (String.ofList inner)
    else
      let (negative, body) := Text.splitSign (c :: cs)
      if Text.isDigits body then
        ofInt? (if negative then -(Text.value body : Int) else Text.value body)
      else match fractional? body with
        | some (digits, places) => some (ofDigits negative digits places)
        | Option.none => ofWord? text

/-- The value of a line of input. No text is `none`, letters alone are a text
    (even if they name a value), and any other line is the value that it
    denotes, or else a text. -/
def ofInput (line : String) : Value :=
  if line.isEmpty then none
  else if line.toList.all Char.isAlpha then string line
  else (ofLiteral? line).getD (string line)

end Kode.Value
