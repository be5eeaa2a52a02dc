import Kode.Token

/-!
# Statements

A program is a list of statements, and a statement may hold others: the
branches of a condition, the body of a loop, and wherever a value is expected
a whole list of them. Expressions are statements, too.

A statement keeps the spans of its own keywords, and its span is made from
these and from the spans of its parts (`Statement.span`): from the first
keyword to the value or to the `END`, but never up to a closing period. Only
what was written nowhere, an empty block, has the empty span.
-/

namespace Kode

/-- A statement of a program. -/
inductive Statement
  /-- Several statements where one value is expected. -/
  | sequence (body : List Statement)
  | literal (token : Token)
  | identifier (token : Token)
  /-- `SET target TO value`. -/
  | assignment (keyword : Span) (target : Token) (value : Statement)
  /-- Two operands; `site` is where the operator stands. -/
  | operation (lhs : Statement) (op : Operator) (site : Span) (rhs : Statement)
  /-- `SHOW value`. -/
  | display (keyword : Span) (value : Statement)
  /-- `INPUT`. -/
  | input (keyword : Span)
  /-- `IF condition THEN pass ELSE fail END`, perhaps without an `ELSE`. -/
  | conditional (keyword : Span) (condition : Statement) (pass : List Statement)
      (fail : Option (List Statement)) (close : Span)
  /-- `WHILE condition DO body END`. -/
  | loop (keyword : Span) (condition : Statement) (body : List Statement) (close : Span)

/-- Statements that are executed one after the other. -/
abbrev Block := List Statement

mutual

/-- The part of the source that the statement was written in. -/
def Statement.span : Statement → Span
  | .sequence body => Block.span body
  | .literal token => token.span
  | .identifier token => token.span
  | .assignment keyword _ value => keyword.merge value.span
  | .operation lhs _ _ rhs => lhs.span.merge rhs.span
  | .display keyword value => keyword.merge value.span
  | .input keyword => keyword
  | .conditional keyword _ _ _ close => keyword.merge close
  | .loop keyword _ _ close => keyword.merge close

/-- The least span that covers all of the statements. -/
def Block.span : List Statement → Span
  | [] => .empty
  | s :: ss => s.span.merge (Block.span ss)

end

/-- What kind of statement it is, as named in traces and dumps. -/
def Statement.label : Statement → String
  | sequence _ => "Statements"
  | literal _ => "Literal"
  | identifier _ => "Identifier"
  | assignment .. => "Assignment"
  | operation .. => "Operation"
  | display .. => "Show"
  | input _ => "Input"
  | conditional .. => "Conditional"
  | loop .. => "Loop"

end Kode
