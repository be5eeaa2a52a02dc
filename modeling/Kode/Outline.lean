/-!
# Outlines

Structured data laid out on lines: every part of a group takes a line of its
own, one step further in than the group around it, and ends with a comma.
-/

namespace Kode

/-- Data to be laid out. -/
inductive Outline
  /-- A text without parts. -/
  | text (t : String)
  /-- A part with its name. -/
  | labelled (label : String) (part : Outline)
  /-- Parts between two texts. -/
  | group (opening : String) (parts : List Outline) (closing : String)

namespace Outline

/-- One piece of data in parentheses. -/
def wrapped (name : String) (part : Outline) : Outline :=
  group (name ++ "(") [part] ")"

/-- Named parts in braces. -/
def record (name : String) (fields : List Outline) : Outline :=
  group (name ++ " \x7b") fields "\x7d"

/-- Parts in brackets; these stand alone if there are no parts. -/
def list (parts : List Outline) : Outline :=
  if parts.isEmpty then text "[]" else group "[" parts "]"

/-- The blanks in front of a line. -/
def margin (depth : Nat) : String :=
  String.ofList (List.replicate (4 * depth) ' ')

mutual

/-- The data as text, of which the first line is already indented. -/
def render (depth : Nat) : Outline → String
  | text t => t
  | labelled label part => label ++ ": " ++ render depth part
  | group opening parts closing =>
    opening ++ "\n" ++ renderParts (depth + 1) parts ++ margin depth ++ closing

/-- The parts as lines. -/
def renderParts (depth : Nat) : List Outline → String
  | [] => ""
  | p :: ps => margin depth ++ render depth p ++ ",\n" ++ renderParts depth ps

end

end Outline

end Kode
