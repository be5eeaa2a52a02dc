import Kode.Span

/-!
# Reports

A report shows where in the program something went wrong: after a header with
the title and the message it repeats every line that a span touches, and marks
the touched characters with carets in a second line beneath.

```text
|
| ParseError: expected an identifier after SET
|
| (main.kode:1:5) SET TO 1.
|                     ^^
```

A span that covers no character is shown at the character it stands before,
or, at the end of a line, at the one it stands after. Lines are shown source by
source, in the order in which the spans first mention them. A source is told
from another one that reads the same.
-/

namespace Kode.Report

/-- A character of a line with its byte offset. -/
abbrev Cell := Nat × Char

/-- The lines of a text; there is one more than there are newlines. -/
def lines : List Cell → List (List Cell)
  | [] => [[]]
  | cell :: cells =>
    if cell.2 = '\n' then [] :: lines cells
    else match lines cells with
      | line :: rest => (cell :: line) :: rest
      | [] => [[cell]]

/-- The line without the carriage return that may end it. -/
def withoutReturn (line : List Cell) : List Cell :=
  if (line.getLast?.map Prod.snd) = some '\r' then line.dropLast else line

/-- Where a span is drawn that covers no character. -/
def pointOffset (source : Source) (offset : Nat) : Nat :=
  match source.chars.find? fun cell => offset ≤ cell.1 with
  | some (_, c) => if c = '\n' then previous else offset
  | none => previous
where
  /-- The offset of the character before. -/
  previous : Nat :=
    match (source.chars.takeWhile fun cell => cell.1 < offset).getLast? with
    | some (o, _) => o
    | none => offset

/-- The offsets, the last one excluded, that a span marks in a source: those it
    covers or else the one where it is drawn. -/
def range? (source : Source) : Span → Option (Nat × Nat)
  | .empty => none
  | .located source' start stop _ =>
    if source' ≠ source then none
    else if start = stop then
      let point := pointOffset source start
      some (point, point + 1)
    else some (start, stop)

/-- Whether the offset lies in one of the ranges. -/
def isMarked (ranges : List (Nat × Nat)) (offset : Nat) : Bool :=
  ranges.any fun r => r.1 ≤ offset && offset < r.2

/-- The carets under a line, given which characters are marked. Nothing
    follows the last one. -/
def carets (marked : List Bool) : String :=
  String.ofList ((marked.reverse.dropWhile (!·)).reverse.map fun m => if m then '^' else ' ')

/-- The text of a line, every tab as one space. -/
def lineText (line : List Cell) : String :=
  String.ofList (line.map fun cell => if cell.2 = '\t' then ' ' else cell.2)

/-- The two lines that show line number `number` of the source, or nothing if
    no character of it is marked. -/
def showLine (source : Source) (ranges : List (Nat × Nat)) (number : Nat) (line : List Cell) :
    String :=
  let marked := line.map fun cell => isMarked ranges cell.1
  match marked.findIdx? id with
  | none => ""
  | some before =>
    let label := "(" ++ source.name ++ ":" ++ toString number ++ ":" ++ toString (before + 1) ++ ")"
    "| " ++ label ++ " " ++ lineText line ++ "\n" ++
      "|" ++ String.ofList (List.replicate (label.length + 1) ' ') ++ " " ++ carets marked ++ "\n"

/-- The lines of the source that the spans touch. -/
def showSource (spans : List Span) (source : Source) : String :=
  let ranges := spans.filterMap (range? source)
  String.join <| (lines source.chars).mapIdx fun i line =>
    showLine source ranges (i + 1) (withoutReturn line)

/-- The sources of the spans, in the order in which they are first mentioned. -/
def sources (spans : List Span) : List Source :=
  (spans.filterMap Span.source?).eraseDups

/-- The report of a message about these places. -/
def render (title message : String) (spans : List Span) : String :=
  "|\n| " ++ title ++ ": " ++ message ++ "\n|\n" ++
    String.join ((sources spans).map (showSource spans))

end Kode.Report
