/-!
# Byte offsets

A place in a text is counted in bytes: the bytes, in UTF-8, of the characters
before it. `byteLength` is the length of a list of characters in that measure,
and `withOffsets` tells every character the offset of its first byte; slices,
line numbers and marks are all read off that one list.

* `byteLength_append`, `withOffsets_append`: both follow the characters from
  left to right;
* `byteLength_toList`: the measure is the size of the text as it is stored;
* `withOffsets_lt`: the offsets of a text lie below its length.
-/

namespace Kode.Text

/-- The number of bytes that the characters take in UTF-8. -/
def byteLength : List Char → Nat
  | [] => 0
  | c :: cs => c.utf8Size + byteLength cs

/-- The characters with the offsets of their first bytes, where the first
    character stands at `start`. -/
def withOffsets (start : Nat) : List Char → List (Nat × Char)
  | [] => []
  | c :: cs => (start, c) :: withOffsets (start + c.utf8Size) cs

@[simp] theorem byteLength_nil : byteLength [] = 0 := rfl

@[simp] theorem byteLength_cons (c : Char) (cs : List Char) :
    byteLength (c :: cs) = c.utf8Size + byteLength cs := rfl

@[simp] theorem byteLength_append (cs ds : List Char) :
    byteLength (cs ++ ds) = byteLength cs + byteLength ds := by
  induction cs with
  | nil => simp
  | cons c cs ih => simp [ih, Nat.add_assoc]

theorem utf8ByteSize_ofList (cs : List Char) :
    (String.ofList cs).utf8ByteSize = byteLength cs := by
  rw [String.utf8ByteSize, String.toByteArray_ofList]
  induction cs with
  | nil => rfl
  | cons c cs ih =>
    rw [List.utf8Encode_cons, ByteArray.size_append, ih, List.utf8Encode_singleton,
      List.size_toByteArray, String.length_utf8EncodeChar, byteLength_cons]

/-- Only a text without characters has no bytes. -/
theorem eq_nil_of_byteLength {cs : List Char} (h : byteLength cs = 0) : cs = [] := by
  cases cs with
  | nil => rfl
  | cons c cs =>
    have hpos := c.utf8Size_pos
    rw [byteLength_cons] at h
    omega

/-- The bytes of a text are the bytes of its characters. -/
@[simp] theorem byteLength_toList (s : String) : byteLength s.toList = s.utf8ByteSize := by
  rw [← utf8ByteSize_ofList, String.ofList_toList]

@[simp] theorem withOffsets_nil (start : Nat) : withOffsets start [] = [] := rfl

@[simp] theorem withOffsets_cons (start : Nat) (c : Char) (cs : List Char) :
    withOffsets start (c :: cs) = (start, c) :: withOffsets (start + c.utf8Size) cs := rfl

@[simp] theorem withOffsets_append (start : Nat) (cs ds : List Char) :
    withOffsets start (cs ++ ds) =
      withOffsets start cs ++ withOffsets (start + byteLength cs) ds := by
  induction cs generalizing start with
  | nil => simp
  | cons c cs ih => simp [ih, Nat.add_assoc]

@[simp] theorem map_snd_withOffsets (start : Nat) (cs : List Char) :
    (withOffsets start cs).map Prod.snd = cs := by
  induction cs generalizing start with
  | nil => rfl
  | cons c cs ih => simp [ih]

theorem length_withOffsets (start : Nat) (cs : List Char) :
    (withOffsets start cs).length = cs.length := by
  rw [← List.length_map Prod.snd, map_snd_withOffsets]

/-- Every offset lies between the start and the end of the characters. -/
theorem withOffsets_lt {start : Nat} {cs : List Char} {p : Nat × Char}
    (hp : p ∈ withOffsets start cs) : start ≤ p.1 ∧ p.1 < start + byteLength cs := by
  induction cs generalizing start with
  | nil => simp at hp
  | cons c cs ih =>
    have hpos := c.utf8Size_pos
    rcases List.mem_cons.1 hp with rfl | hp
    · simp only [byteLength_cons]
      omega
    · have := ih hp
      simp only [byteLength_cons]
      omega

theorem withOffsets_lt_byteLength {cs : List Char} :
    ∀ p ∈ withOffsets 0 cs, p.1 < byteLength cs := by
  intro p hp
  have := (withOffsets_lt hp).2
  omega

end Kode.Text
