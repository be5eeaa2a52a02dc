import Kode.Decimal

/-!
# The shortest decimal of a float

A positive float `m · 2 ^ e` is the nearest float to every real number in an
interval around it, which reaches half way to the neighbours; the ends belong
to it if `m` is even. Any decimal in the interval reads back as that float.
`Binary.shortest` takes one on the coarsest grid of powers of ten that has
such a decimal, and there the one that is nearest to the float.

All of it is done on natural numbers: the ends of the interval are whole
multiples of a quarter of `2 ^ e` (`Binary.low`, `Binary.high`), and they are
compared with multiples of `10 ^ k` after both have been scaled up.
-/

namespace Kode

/-- The number `mantissa · 2 ^ exponent`, where `narrow` says that the next
    float below is only half as far away as the next one above. -/
structure Binary where
  mantissa : Nat
  exponent : Int
  narrow : Bool
deriving DecidableEq, Repr

namespace Binary

/-- The lower end of the interval, in quarters of `2 ^ exponent`. -/
def low (b : Binary) : Nat :=
  if b.narrow then 4 * b.mantissa - 1 else 4 * b.mantissa - 2

/-- The number itself, in quarters of `2 ^ exponent`. -/
def middle (b : Binary) : Nat :=
  4 * b.mantissa

/-- The upper end of the interval, in quarters of `2 ^ exponent`. -/
def high (b : Binary) : Nat :=
  4 * b.mantissa + 2

/-- Whether the ends belong to the interval: ties go to the even mantissa. -/
def closed (b : Binary) : Bool :=
  b.mantissa % 2 = 0

/-- A power as a fraction: `base ^ n` over one, or one over `base ^ -n`. -/
def power (base : Nat) (n : Int) : Nat × Nat :=
  if n < 0 then (1, Nat.pow base n.natAbs) else (Nat.pow base n.natAbs, 1)

/-- The factors that bring quarters of `2 ^ exponent` and multiples of
    `10 ^ k` to a common scale. -/
def scales (b : Binary) (k : Int) : Nat × Nat :=
  let quarter := power 2 (b.exponent - 2)
  let step := power 10 k
  (quarter.1 * step.2, step.1 * quarter.2)

/-- Whether `d · 10 ^ k` lies in the interval. -/
def admits (b : Binary) (d : Nat) (k : Int) : Bool :=
  let (p, q) := b.scales k
  if b.closed then b.low * p ≤ d * q && d * q ≤ b.high * p
  else b.low * p < d * q && d * q < b.high * p

/-- The multiple of `10 ^ k` in the interval that is nearest to the number, if
    there is one. Of two at the same distance it is the upper one. -/
def nearest? (b : Binary) (k : Int) : Option Nat :=
  let (p, q) := b.scales k
  let d := b.middle * p / q
  match b.admits d k, b.admits (d + 1) k with
  | true, true => if 2 * (b.middle * p) < (2 * d + 1) * q then some d else some (d + 1)
  | true, false => some d
  | false, true => some (d + 1)
  | false, false => none

/-- The first hit on the grids of `10 ^ k`, `10 ^ (k - 1)` and so on, of which
    `n` are tried. -/
def coarsest? (b : Binary) : Nat → Int → Option Decimal
  | 0, _ => none
  | n + 1, k =>
    match b.nearest? k with
    | some d => some ⟨d, k⟩
    | none => b.coarsest? n (k - 1)

/-- A power of ten above the number, and not by much: one tenth of the binary
    digits, times three and a bit, is about the number of decimal ones. -/
def ceilingLog (b : Binary) : Int :=
  (b.exponent + b.mantissa.log2 + 1) * 30103 / 100000 + 1

/-- The shortest decimal in the interval. Twenty grids are enough: from the
    power of ten above the number down to its seventeenth digit, where the
    grid is finer than the interval is wide. -/
def shortest (b : Binary) : Decimal :=
  (b.coarsest? 20 b.ceilingLog).getD ⟨0, 0⟩

end Binary

/-- What the bits of a double stand for. -/
inductive FloatClass
  | nan
  | infinite (negative : Bool)
  | zero (negative : Bool)
  /-- A finite number other than zero, by its magnitude. -/
  | finite (negative : Bool) (magnitude : Binary)
deriving DecidableEq, Repr

/-- Reads the fields of the binary64 format: a sign bit, eleven bits of
    exponent and fifty-two of the mantissa, whose leading bit is not stored. -/
def FloatClass.ofBits (bits : UInt64) : FloatClass :=
  let negative : Bool := 0x8000000000000000 ≤ bits.toNat
  let exponent : Nat := bits.toNat / 0x10000000000000 % 0x800
  let fraction := bits.toNat % 0x10000000000000
  if exponent = 2047 then
    if fraction = 0 then .infinite negative else .nan
  else if exponent = 0 then
    if fraction = 0 then .zero negative else .finite negative ⟨fraction, -1074, false⟩
  else
    .finite negative ⟨0x10000000000000 + fraction, (exponent : Int) - 1075, fraction = 0 ∧ 1 < exponent⟩

example : (⟨1, -1074, false⟩ : Binary).shortest = ⟨5, -324⟩ := by decide +kernel

example : (⟨0x10000000000000, -52, true⟩ : Binary).shortest = ⟨1, 0⟩ := by decide +kernel

example : (⟨7205759403792794, -56, false⟩ : Binary).shortest = ⟨1, -1⟩ := by decide +kernel

end Kode
