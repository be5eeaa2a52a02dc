import Kode.Span
import Kode.Text.Blank

/-!
# Lexemes

The smallest pieces a program is cut into. A *mark* (a period, a minus or one
of the two quotes) stands alone; any other characters run together as long as
all of them are blank or none of them is. Blank runs are lexemes, too: whether
two words touch or stand apart matters to the numbers and the quoted texts
that are put together from lexemes later.

The cut is a property of the characters alone (`groups`), and the lexemes are
the groups with their offsets (`Source.lexemes`):

* `flatten_groups`: no character is lost, added or moved;
* `groups_ne_nil`: no group is empty;
* `join_text_lexemes`: the texts of the lexemes make up the source.
-/

namespace Kode

/-- A piece of a source: its text and the offset of its first byte. -/
structure Lexeme where
  start : Nat
  text : String
deriving DecidableEq, Repr

namespace Lexeme

/-- How a character joins its neighbours. -/
inductive Role
  /-- Stands alone. -/
  | mark
  /-- Runs together with blank neighbours. -/
  | blank
  /-- Runs together with neighbours that are neither marks nor blank. -/
  | word
deriving DecidableEq, Repr

/-- The characters that stand alone. -/
def marks : List Char := ['.', '-', '"', '\'']

/-- How the character joins its neighbours. -/
def role (c : Char) : Role :=
  if c ∈ marks then .mark else if Text.isBlank c then .blank else .word

/-- Whether two neighbouring characters belong to one lexeme. -/
def joins (c d : Char) : Bool :=
  role c = role d ∧ role c ≠ .mark

/-- Puts a character in front of the groups of what follows it. -/
def glue (c : Char) : List (List Char) → List (List Char)
  | (d :: ds) :: gs => if joins c d then (c :: d :: ds) :: gs else [c] :: (d :: ds) :: gs
  | gs => [c] :: gs

/-- The characters of a text, cut into marks and runs. -/
def groups (cs : List Char) : List (List Char) :=
  cs.foldr glue []

/-- The groups as lexemes, where the first one stands at `start`. -/
def placed (start : Nat) : List (List Char) → List Lexeme
  | [] => []
  | g :: gs => ⟨start, String.ofList g⟩ :: placed (start + Text.byteLength g) gs

/-- The offset after the last byte. -/
def stop (l : Lexeme) : Nat :=
  l.start + l.text.utf8ByteSize

/-- The range of the lexeme in the source it was cut from. -/
def span (source : Source) (l : Lexeme) : Span :=
  .located source l.start l.stop (Nat.le_add_right _ _)

/-- Whether the lexeme is a blank run. -/
def isBlank (l : Lexeme) : Bool :=
  Text.allBlank l.text

@[simp] theorem groups_nil : groups [] = [] := rfl

@[simp] theorem groups_cons (c : Char) (cs : List Char) :
    groups (c :: cs) = glue c (groups cs) := rfl

theorem flatten_glue (c : Char) (gs : List (List Char)) :
    (glue c gs).flatten = c :: gs.flatten := by
  unfold glue
  split
  · split <;> simp
  · simp

/-- Cutting keeps the characters. -/
@[simp] theorem flatten_groups (cs : List Char) : (groups cs).flatten = cs := by
  induction cs with
  | nil => rfl
  | cons c cs ih => rw [groups_cons, flatten_glue, ih]

/-- A group of the longer text begins with the new character or was there
    before. -/
theorem mem_glue {c : Char} {gs : List (List Char)} {g : List Char} (hg : g ∈ glue c gs) :
    (∃ cs, g = c :: cs) ∨ g ∈ gs := by
  fun_cases glue c gs with
  | case1 d ds gs h =>
    rw [glue, if_pos h] at hg
    rcases List.mem_cons.1 hg with rfl | hg
    · exact .inl ⟨_, rfl⟩
    · exact .inr (List.mem_cons_of_mem _ hg)
  | case2 d ds gs h =>
    rw [glue, if_neg h] at hg
    rcases List.mem_cons.1 hg with rfl | hg
    · exact .inl ⟨_, rfl⟩
    · exact .inr hg
  | case3 gs h =>
    rw [glue] at hg
    · rcases List.mem_cons.1 hg with rfl | hg
      · exact .inl ⟨_, rfl⟩
      · exact .inr hg
    · exact h

theorem groups_ne_nil {cs g : List Char} (hg : g ∈ groups cs) : g ≠ [] := by
  induction cs with
  | nil => simp at hg
  | cons c cs ih =>
    rcases mem_glue hg with ⟨ds, rfl⟩ | hg
    · simp
    · exact ih hg

@[simp] theorem map_text_placed (start : Nat) (gs : List (List Char)) :
    (placed start gs).map Lexeme.text = gs.map String.ofList := by
  induction gs generalizing start with
  | nil => rfl
  | cons g gs ih => simp [placed, ih]

end Lexeme

namespace Source

/-- The lexemes of a source, in order. -/
def lexemes (s : Source) : List Lexeme :=
  Lexeme.placed 0 (Lexeme.groups s.text.toList)

/-- The texts of the lexemes make up the source. -/
theorem join_text_lexemes (s : Source) :
    ((s.lexemes.map Lexeme.text).map String.toList).flatten = s.text.toList := by
  simp [lexemes, Function.comp_def]

end Source

end Kode
