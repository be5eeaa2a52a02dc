import Kode.Statement

/-!
# Formatting

The canonical text of a program: one statement a line, keywords in upper case,
operators by their symbols, bodies indented by tabs. Literals and names are
shown as they were written.

There are two ways to write a statement. In *statement position* it takes a
line and is closed by a period where it needs one (`Block.format`). In *value
position*, as the value of a `SET` or a condition, everything is written on
one line and without any period, for the first period would close the
statement around it (`Statement.inline`).
-/

namespace Kode

mutual

/-- The statement on one line, without a period. -/
def Statement.inline : Statement → String
  | .sequence body => " ".intercalate (Block.inlines body)
  | .literal token => token.text
  | .identifier token => token.text
  | .assignment _ target value => "SET " ++ target.text ++ " TO " ++ value.inline
  | .operation lhs op _ rhs => lhs.inline ++ " " ++ op.symbol ++ " " ++ rhs.inline
  | .display _ value => "SHOW " ++ value.inline
  | .input _ => "INPUT"
  | .conditional _ condition pass fail _ =>
    "IF " ++ condition.inline ++ " THEN" ++ String.join ((Block.inlines pass).map (" " ++ ·)) ++
      (match fail with
        | some fail => " ELSE" ++ String.join ((Block.inlines fail).map (" " ++ ·))
        | none => "") ++
      " END"
  | .loop _ condition body _ =>
    "WHILE " ++ condition.inline ++ " DO" ++ String.join ((Block.inlines body).map (" " ++ ·)) ++
      " END"

/-- The statements, each on one line without a period. -/
def Block.inlines : List Statement → List String
  | [] => []
  | s :: ss => s.inline :: Block.inlines ss

end

/-- The tabs in front of a line. -/
def indentation (depth : Nat) : String :=
  String.ofList (List.replicate depth '\t')

mutual

/-- The statement on lines of its own. -/
def Statement.formatAt (depth : Nat) : Statement → String
  | .sequence body => Block.formatAt depth body
  | .conditional _ condition pass fail _ =>
    indentation depth ++ "IF " ++ condition.inline ++ " THEN\n" ++
      Block.formatAt (depth + 1) pass ++
      (match fail with
        | some fail => indentation depth ++ "ELSE\n" ++ Block.formatAt (depth + 1) fail
        | none => "") ++
      indentation depth ++ "END.\n"
  | .loop _ condition body _ =>
    indentation depth ++ "WHILE " ++ condition.inline ++ " DO\n" ++
      Block.formatAt (depth + 1) body ++
      indentation depth ++ "END.\n"
  | .display keyword value => indentation depth ++ (Statement.display keyword value).inline ++ ".\n"
  | .assignment keyword target value =>
    indentation depth ++ (Statement.assignment keyword target value).inline ++ ".\n"
  | .input keyword => indentation depth ++ (Statement.input keyword).inline ++ ".\n"
  | .literal token => indentation depth ++ (Statement.literal token).inline ++ "\n"
  | .identifier token => indentation depth ++ (Statement.identifier token).inline ++ "\n"
  | .operation lhs op site rhs =>
    indentation depth ++ (Statement.operation lhs op site rhs).inline ++ "\n"

/-- The statements on lines of their own, indented by `depth` tabs. -/
def Block.formatAt (depth : Nat) : List Statement → String
  | [] => ""
  | s :: ss => s.formatAt depth ++ Block.formatAt depth ss

end

/-- The canonical text of a program. -/
def Block.format (b : Block) : String :=
  Block.formatAt 0 b

end Kode
