/-!
# Bytes that need not be text

Names of files are bytes, and these need not be a text in UTF-8. To be shown they
are cut into the characters that they encode and into what is none: a byte that no
character begins with, or the beginning of a character that does not go on. Each
piece of the second kind is shown as one replacement character.
-/

namespace Kode.Text

/-- What a character that has begun still takes: so many bytes, and the bounds of
    the next of them. -/
structure Owed where
  count : Nat
  low : UInt8
  high : UInt8

/-- What a character takes after its first byte. Some bounds are closer than those
    of the other bytes: they rule out characters that have a shorter encoding, and
    numbers that are not those of a character. -/
def Owed.after? (b : UInt8) : Option Owed :=
  if b ≤ 0x7F then some ⟨0, 0x80, 0xBF⟩
  else if b < 0xC2 then none
  else if b ≤ 0xDF then some ⟨1, 0x80, 0xBF⟩
  else if b = 0xE0 then some ⟨2, 0xA0, 0xBF⟩
  else if b = 0xED then some ⟨2, 0x80, 0x9F⟩
  else if b ≤ 0xEF then some ⟨2, 0x80, 0xBF⟩
  else if b = 0xF0 then some ⟨3, 0x90, 0xBF⟩
  else if b ≤ 0xF3 then some ⟨3, 0x80, 0xBF⟩
  else if b = 0xF4 then some ⟨3, 0x80, 0x8F⟩
  else none

/-- Cuts bytes into characters and what is none. The bytes of a character that has
    begun are given, and what it still takes. -/
def pieces (begun : List UInt8) (owed : Owed) : List UInt8 → List (List UInt8)
  | [] => if begun = [] then [] else [begun]
  | b :: bs =>
    if begun ≠ [] ∧ owed.low ≤ b ∧ b ≤ owed.high then
      if owed.count ≤ 1 then (begun ++ [b]) :: pieces [] owed bs
      else pieces (begun ++ [b]) ⟨owed.count - 1, 0x80, 0xBF⟩ bs
    else
      let rest :=
        match Owed.after? b with
        | some next => if next.count = 0 then [b] :: pieces [] next bs else pieces [b] next bs
        | none => [b] :: pieces [] owed bs
      if begun = [] then rest else begun :: rest

/-- The character that a piece encodes, or the replacement character. -/
def ofPiece (piece : List UInt8) : String :=
  (String.fromUTF8? ⟨piece.toArray⟩).getD "\uFFFD"

/-- The bytes as a text, as far as they are one. -/
def lossy (bytes : List UInt8) : String :=
  String.join ((pieces [] ⟨0, 0x80, 0xBF⟩ bytes).map ofPiece)

/-- Two characters, the beginning of one of three bytes, and a byte that begins none. -/
example : lossy [0x66, 0xC3, 0xB6, 0xE2, 0x82, 0x2E, 0xFF] = "fö\uFFFD.\uFFFD" := by
  decide +kernel

end Kode.Text
