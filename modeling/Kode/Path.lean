import Kode.Text.Order

/-!
# Paths

A path says how to get to a file or directory. It is cut at its slashes, and its
pieces are taken as steps from one directory to the next: a piece of one point
stays, one of two points goes up, and any other one is the name of something in
the directory. Paths and names are bytes, which need not be text.

A place is where something is: the names that lead there from the root.
-/

namespace Kode

/-- How to get to a file or directory. -/
abbrev Path := List UInt8

/-- The byte between two steps of a path. -/
def slash : UInt8 := 0x2F

/-- The byte of a step that stays; two of them go up. -/
def point : UInt8 := 0x2E

/-- The name of something in a directory. -/
structure FileName where
  bytes : List UInt8
  not_slash : slash ∉ bytes
  not_step : bytes ∉ [[], [point], [point, point]]
deriving DecidableEq

/-- The order of names, by their bytes. -/
def FileName.le (a b : FileName) : Bool :=
  (compare a.bytes b.bytes).isLE

/-- Where something is, from the root. -/
abbrev Place := List FileName

namespace Path

/-- A step on the way to a file or directory. -/
inductive Step
  /-- There is nothing between two slashes, or behind the last one. -/
  | blank
  | stay
  | up
  | into (name : FileName)
deriving DecidableEq

namespace Step

/-- The step that a piece of a path stands for. -/
def ofPiece (piece : List UInt8) : Step :=
  if h : slash ∉ piece ∧ piece ∉ [[], [point], [point, point]] then into ⟨piece, h.1, h.2⟩
  else if piece = [point, point] then up
  else if piece = [point] then stay
  else blank

/-- The name of what the step leads to, if it leads into a directory. -/
def name? : Step → Option FileName
  | into name => some name
  | _ => none

end Step

/-- The path that is written so. -/
def ofText (text : String) : Path :=
  Text.bytes text

/-- The pieces between slashes. -/
def pieces : Path → List (List UInt8)
  | [] => [[]]
  | b :: bs =>
    if b = slash then [] :: pieces bs
    else
      match pieces bs with
      | [] => [[b]]
      | first :: rest => (b :: first) :: rest

/-- The steps of a path. -/
def steps (path : Path) : List Step :=
  (pieces path).map Step.ofPiece

/-- The place whose names are those in the path. -/
def place (path : Path) : Place :=
  path.steps.filterMap Step.name?

/-- Whether the path starts at the root. -/
def isAbsolute (path : Path) : Bool :=
  path.head? = some slash

end Path

end Kode
