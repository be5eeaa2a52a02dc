import Kode.Text.Offset

/-!
# Sources

A *source* is a named text: a program file, say. Places in it are byte offsets
(`Kode.Text.withOffsets`); people are told the line and the column instead,
both counted from one, the column in characters (`Source.position`).

Two sources may carry the same name and the same text and still be different
ones, as when a program is read twice. Their serial numbers tell them apart.
-/

namespace Kode

/-- A named text. -/
structure Source where
  /-- The name shown in front of the positions in this source. -/
  name : String
  text : String
  /-- Distinguishes sources that read the same. -/
  serial : Nat
deriving DecidableEq

/-- A line and a column, both counted from one; the column counts characters. -/
structure Position where
  line : Nat
  column : Nat
deriving DecidableEq, Repr

namespace Position

/-- The position of the first character of a text. -/
def origin : Position := ⟨1, 1⟩

/-- The position after the character `c` that stands at `p`. -/
def advance (p : Position) (c : Char) : Position :=
  if c = '\n' then ⟨p.line + 1, 1⟩ else ⟨p.line, p.column + 1⟩

end Position

namespace Source

/-- The length of the source in bytes. -/
def size (s : Source) : Nat :=
  s.text.utf8ByteSize

/-- The characters of the source with their byte offsets. -/
def chars (s : Source) : List (Nat × Char) :=
  Text.withOffsets 0 s.text.toList

/-- The characters that start before the offset. -/
def before (s : Source) (offset : Nat) : List Char :=
  (s.chars.takeWhile fun p => p.1 < offset).map Prod.snd

/-- The characters that start at the offset `start` or later, but before `stop`. -/
def slice (s : Source) (start stop : Nat) : String :=
  String.ofList (((s.chars.dropWhile fun p => p.1 < start).takeWhile fun p =>
    p.1 < stop).map Prod.snd)

/-- The line and the column of an offset. An offset past the end stands for
    the end. -/
def position (s : Source) (offset : Nat) : Position :=
  (s.before offset).foldl Position.advance Position.origin

@[simp] theorem before_zero (s : Source) : s.before 0 = [] := by
  unfold before
  cases s.chars <;> simp

@[simp] theorem position_zero (s : Source) : s.position 0 = Position.origin := by
  simp [position]

end Source

end Kode
