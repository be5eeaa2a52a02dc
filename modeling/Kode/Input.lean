import Kode.Text.Offset

/-!
# Input

The lines that a running program reads. Every `INPUT` takes one answer: a line,
the end of the input, or the reason why there is none. Past the last answer the
input has ended as well.

Where the input is given as bytes it is cut after every line feed, and each
line is decoded on its own (`Answer.ofBytes`), so that one with invalid bytes
spoils no other.
-/

namespace Kode

/-- What reading one line comes to. -/
inductive Answer
  /-- A line, without what terminates it. -/
  | line (text : String)
  | endOfInput
  | failure (reason : String)
deriving DecidableEq, Repr

namespace Answer

/-- The line without the line feed at its end, and without the carriage return
    before that. -/
def dropTerminator (cs : List Char) : List Char :=
  match cs.reverse with
  | '\n' :: '\r' :: rest => rest.reverse
  | '\n' :: rest => rest.reverse
  | _ => cs

/-- The answer that a line is, which may still have its terminator. -/
def ofLine (text : String) : Answer :=
  .line (String.ofList (dropTerminator text.toList))

/-- The reason given for bytes that are not text. -/
def invalidText : String :=
  "stream did not contain valid UTF-8"

/-- The answer that the bytes of a line are. -/
def ofLineBytes (bytes : List UInt8) : Answer :=
  match String.fromUTF8? ⟨bytes.toArray⟩ with
  | some text => ofLine text
  | none => .failure invalidText

/-- Cuts after every line feed. Nothing is left of the bytes after the last one
    if there are none. -/
def cutLines : List UInt8 → List (List UInt8)
  | [] => []
  | b :: bs =>
    if b = 10 then [b] :: cutLines bs
    else
      match cutLines bs with
      | [] => [[b]]
      | first :: rest => (b :: first) :: rest

/-- The answers that the bytes of an input are. -/
def ofBytes (bytes : List UInt8) : List Answer :=
  (cutLines bytes).map ofLineBytes

/-- No byte is lost by cutting. -/
theorem flatten_cutLines (bytes : List UInt8) : (cutLines bytes).flatten = bytes := by
  induction bytes with
  | nil => rfl
  | cons b bs ih =>
    rw [cutLines]
    split
    · simp [ih]
    · split
      · rename_i h
        simpa [h] using ih.symm
      · rename_i h
        simpa [h] using ih

end Answer

end Kode
