import Kode.Outline
import Kode.Statement
import Kode.Text.Quoted

/-!
# The outline of a program

A dump of the tree of statements. Spans are shown as bare offsets, and values
the way they are written in programs, except that texts are quoted and truth
values are in lower case.
-/

namespace Kode

/-- The span as its offsets. -/
def Span.outline (s : Span) : Outline :=
  .text s.offsets

/-- The value under the name of its kind. -/
def Value.outline : Value → Outline
  | string text => .wrapped "String" (.text (Text.quoted text))
  | integer n => .wrapped "Integer" (.text (toString n.toInt))
  | float x => .wrapped "Float" (.text (Decimal.writeFloat x))
  | boolean b => .wrapped "Boolean" (.text (if b then "true" else "false"))
  | none => .text "None"

/-- The name of an operator. -/
def Operator.name : Operator → String
  | .add => "Add"
  | .subtract => "Subtract"
  | .multiply => "Multiply"
  | .divide => "Divide"
  | .integerDivide => "IntegerDivide"
  | .modulo => "Modulo"
  | .index => "Index"
  | .shiftLeft => "ShiftLeft"
  | .shiftRight => "ShiftRight"
  | .less => "Less"
  | .greater => "Greater"
  | .equal => "Equal"
  | .bitAnd => "BitAnd"
  | .bitXor => "BitXor"
  | .bitOr => "BitOr"
  | .and => "And"
  | .or => "Or"

/-- The token with its kind. -/
def Token.outline (t : Token) : Outline :=
  let kind : Outline := match t.kind with
    | .literal v => .wrapped "Literal" v.outline
    | .identifier => .text "Identifier"
    | .keyword word => .wrapped "Reserved" (.text word.word)
    | .operator op => .wrapped "Operator" (.text op.name)
    | .punctuation mark => .wrapped "Punctuation" (.text (Text.quoted mark.text))
  .record "Token" [.labelled "kind" kind, .labelled "span" t.span.outline]

mutual

/-- The statement with its parts. -/
def Statement.outline (s : Statement) : Outline :=
  match s with
  | .sequence body => .wrapped "Statements" (Block.outline body)
  | .literal token => .wrapped "Literal" token.outline
  | .identifier token => .wrapped "Identifier" token.outline
  | .assignment keyword target value =>
    .record "Assignment"
      [.labelled "keyword" keyword.outline, .labelled "identifier" target.outline,
        .labelled "value" value.outline]
  | .operation lhs op site rhs =>
    .record "Operation"
      [.labelled "lhs" lhs.outline, .labelled "operator" (.text op.name),
        .labelled "at" site.outline, .labelled "rhs" rhs.outline]
  | .display keyword value =>
    .record "Show" [.labelled "keyword" keyword.outline, .labelled "value" value.outline]
  | .input keyword => .record "Input" [.labelled "keyword" keyword.outline]
  | .conditional keyword condition pass fail close =>
    .record "Conditional"
      [.labelled "keyword" keyword.outline, .labelled "condition" condition.outline,
        .labelled "pass" (Block.outline pass), .labelled "fail" (Block.outlineElse fail),
        .labelled "end" close.outline]
  | .loop keyword condition body close =>
    .record "Loop"
      [.labelled "keyword" keyword.outline, .labelled "condition" condition.outline,
        .labelled "body" (Block.outline body), .labelled "end" close.outline]

/-- The block with its statements. -/
def Block.outline (b : List Statement) : Outline :=
  .record "Block" [.labelled "statements" (.list (Block.outlines b))]

/-- The statements, one by one. -/
def Block.outlines : List Statement → List Outline
  | [] => []
  | s :: ss => s.outline :: Block.outlines ss

/-- What follows an `ELSE`, if there is one. -/
def Block.outlineElse : Option (List Statement) → Outline
  | none => .text "None"
  | some body => .wrapped "Some" (Block.outline body)

end

end Kode
