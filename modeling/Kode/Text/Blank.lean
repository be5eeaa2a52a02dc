/-!
# Blank characters

The characters with the property `White_Space`: they separate the words of a
program and are otherwise ignored. The property holds of more characters than
the four that ASCII knows by that name, among them the no-break space and the
ideographic space, but not of the zero-width ones.
-/

namespace Kode.Text

/-- The ranges, ends included, of the code points with the property
    `White_Space`. -/
def blankRanges : List (Nat × Nat) :=
  [(0x09, 0x0D), (0x20, 0x20), (0x85, 0x85), (0xA0, 0xA0), (0x1680, 0x1680), (0x2000, 0x200A),
   (0x2028, 0x2029), (0x202F, 0x202F), (0x205F, 0x205F), (0x3000, 0x3000)]

/-- Whether the character is white space. -/
def isBlank (c : Char) : Bool :=
  blankRanges.any fun r => r.1 ≤ c.toNat && c.toNat ≤ r.2

/-- Whether the text holds nothing but white space. -/
def allBlank (s : String) : Bool :=
  s.toList.all isBlank

example : (blankRanges.map fun r => r.2 + 1 - r.1).sum = 25 := by decide

example : isBlank '\n' ∧ isBlank '\u00a0' ∧ isBlank '\u3000' ∧ ¬ isBlank '\u200b' := by decide

end Kode.Text
