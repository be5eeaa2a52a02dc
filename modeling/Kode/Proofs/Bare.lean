import Kode.Proofs.Grammar
import Kode.Statement.Format

/-!
# Programs up to spans

Two programs that were written in different places may still be the same
program: what differs is the spans. `Block.bare` takes them away, and leaves
the kinds of the statements, the operators, the texts of literals and names,
the order and the branches. Neither how deep a program is nested nor how it is
printed depends on spans (`Block.nesting_bare`, `Block.format_bare`).
-/

namespace Kode

/-- The token without its span. -/
def Token.bare (t : Token) : Token :=
  { t with span := .empty }

mutual

/-- The statement without its spans. -/
def Statement.bare : Statement → Statement
  | .sequence body => .sequence (Block.bare body)
  | .literal token => .literal token.bare
  | .identifier token => .identifier token.bare
  | .assignment _ target value => .assignment .empty target.bare value.bare
  | .operation lhs op _ rhs => .operation lhs.bare op .empty rhs.bare
  | .display _ value => .display .empty value.bare
  | .input _ => .input .empty
  | .conditional _ condition pass fail _ =>
    .conditional .empty condition.bare (Block.bare pass) (Block.bareElse fail) .empty
  | .loop _ condition body _ => .loop .empty condition.bare (Block.bare body) .empty

/-- The statements without their spans. -/
def Block.bare : List Statement → List Statement
  | [] => []
  | s :: ss => s.bare :: Block.bare ss

/-- The same for what follows an `ELSE`, if there is one. -/
def Block.bareElse : Option (List Statement) → Option (List Statement)
  | none => none
  | some body => some (Block.bare body)

end

/-! ## What does not depend on spans -/

namespace Token

@[simp] theorem keyword?_bare (t : Token) : t.bare.keyword? = t.keyword? := rfl

@[simp] theorem isKeyword_bare (word : Keyword) (t : Token) :
    t.bare.isKeyword word = t.isKeyword word := rfl

@[simp] theorem isPeriod_bare (t : Token) : t.bare.isPeriod = t.isPeriod := rfl

@[simp] theorem isIdentifier_bare (t : Token) : t.bare.isIdentifier = t.isIdentifier := rfl

@[simp] theorem isLiteral_bare (t : Token) : t.bare.isLiteral = t.isLiteral := rfl

@[simp] theorem operator?_bare (t : Token) : t.bare.operator? = t.operator? := rfl

@[simp] theorem text_bare (t : Token) : t.bare.text = t.text := rfl

@[simp] theorem bare_bare (t : Token) : t.bare.bare = t.bare := rfl

end Token

@[simp] theorem Block.bare_value (b : Block) : b.value.bare = Block.value (Block.bare b) := by
  match b with
  | [] => rfl
  | [s] => rfl
  | s :: s' :: ss => rfl

mutual

@[simp] theorem Statement.bare_bare (s : Statement) : s.bare.bare = s.bare := by
  match s with
  | .sequence body => simp only [Statement.bare, Block.bare_bare body]
  | .literal _ | .identifier _ | .input _ => rfl
  | .assignment _ _ value => simp only [Statement.bare, value.bare_bare, Token.bare_bare]
  | .operation lhs _ _ rhs => simp only [Statement.bare, lhs.bare_bare, rhs.bare_bare]
  | .display _ value => simp only [Statement.bare, value.bare_bare]
  | .conditional _ condition pass fail _ =>
    simp only [Statement.bare, condition.bare_bare, Block.bare_bare pass,
      Block.bareElse_bareElse fail]
  | .loop _ condition body _ =>
    simp only [Statement.bare, condition.bare_bare, Block.bare_bare body]

@[simp] theorem Block.bare_bare (b : List Statement) :
    Block.bare (Block.bare b) = Block.bare b := by
  match b with
  | [] => rfl
  | s :: ss => simp only [Block.bare, s.bare_bare, Block.bare_bare ss]

theorem Block.bareElse_bareElse (b : Option (List Statement)) :
    Block.bareElse (Block.bareElse b) = Block.bareElse b := by
  match b with
  | none => rfl
  | some body => simp only [Block.bareElse, Block.bare_bare body]

end

mutual

@[simp] theorem Statement.nesting_bare (s : Statement) : s.bare.nesting = s.nesting := by
  match s with
  | .sequence body => exact Block.nesting_bare body
  | .literal _ | .identifier _ | .input _ => rfl
  | .assignment _ _ value => simp only [Statement.bare, Statement.nesting, value.nesting_bare]
  | .operation lhs _ _ rhs =>
    simp only [Statement.bare, Statement.nesting, lhs.nesting_bare, rhs.nesting_bare]
  | .display _ value => simp only [Statement.bare, Statement.nesting, value.nesting_bare]
  | .conditional _ condition pass fail _ =>
    simp only [Statement.bare, Statement.nesting, condition.nesting_bare, Block.nesting_bare pass,
      Block.nestingElse_bare fail]
  | .loop _ condition body _ =>
    simp only [Statement.bare, Statement.nesting, condition.nesting_bare, Block.nesting_bare body]

@[simp] theorem Block.nesting_bare (b : List Statement) :
    Block.nesting (Block.bare b) = Block.nesting b := by
  match b with
  | [] => rfl
  | s :: ss => simp only [Block.bare, Block.nesting, s.nesting_bare, Block.nesting_bare ss]

theorem Block.nestingElse_bare (b : Option (List Statement)) :
    Block.nestingElse (Block.bareElse b) = Block.nestingElse b := by
  match b with
  | none => rfl
  | some body => exact Block.nesting_bare body

end

mutual

theorem Statement.inline_bare (s : Statement) : s.bare.inline = s.inline := by
  match s with
  | .sequence body => simp only [Statement.bare, Statement.inline, Block.inlines_bare body]
  | .literal _ | .identifier _ | .input _ => rfl
  | .assignment _ _ value =>
    simp only [Statement.bare, Statement.inline, value.inline_bare, Token.text_bare]
  | .operation lhs _ _ rhs =>
    simp only [Statement.bare, Statement.inline, lhs.inline_bare, rhs.inline_bare]
  | .display _ value => simp only [Statement.bare, Statement.inline, value.inline_bare]
  | .conditional _ condition pass none _ =>
    simp only [Statement.bare, Statement.inline, condition.inline_bare, Block.inlines_bare pass,
      Block.bareElse]
  | .conditional _ condition pass (some fail) _ =>
    simp only [Statement.bare, Statement.inline, condition.inline_bare, Block.inlines_bare pass,
      Block.bareElse, Block.inlines_bare fail]
  | .loop _ condition body _ =>
    simp only [Statement.bare, Statement.inline, condition.inline_bare, Block.inlines_bare body]

theorem Block.inlines_bare (b : List Statement) :
    Block.inlines (Block.bare b) = Block.inlines b := by
  match b with
  | [] => rfl
  | s :: ss => simp only [Block.bare, Block.inlines, s.inline_bare, Block.inlines_bare ss]

end

mutual

theorem Statement.formatAt_bare (depth : Nat) (s : Statement) :
    s.bare.formatAt depth = s.formatAt depth := by
  match s with
  | .sequence body => exact Block.formatAt_bare depth body
  | .literal _ | .identifier _ | .input _ => rfl
  | .assignment _ _ value =>
    simp only [Statement.bare, Statement.formatAt, Statement.inline, value.inline_bare,
      Token.text_bare]
  | .operation lhs _ _ rhs =>
    simp only [Statement.bare, Statement.formatAt, Statement.inline, lhs.inline_bare,
      rhs.inline_bare]
  | .display _ value =>
    simp only [Statement.bare, Statement.formatAt, Statement.inline, value.inline_bare]
  | .conditional _ condition pass none _ =>
    simp only [Statement.bare, Statement.formatAt, condition.inline_bare,
      Block.formatAt_bare _ pass, Block.bareElse]
  | .conditional _ condition pass (some fail) _ =>
    simp only [Statement.bare, Statement.formatAt, condition.inline_bare,
      Block.formatAt_bare _ pass, Block.bareElse, Block.formatAt_bare _ fail]
  | .loop _ condition body _ =>
    simp only [Statement.bare, Statement.formatAt, condition.inline_bare,
      Block.formatAt_bare _ body]

theorem Block.formatAt_bare (depth : Nat) (b : List Statement) :
    Block.formatAt depth (Block.bare b) = Block.formatAt depth b := by
  match b with
  | [] => rfl
  | s :: ss => simp only [Block.bare, Block.formatAt, s.formatAt_bare, Block.formatAt_bare _ ss]

end

theorem Block.format_bare (b : Block) : Block.format (Block.bare b) = Block.format b :=
  Block.formatAt_bare 0 b

/-! ## Trees without spans -/

theorem Block.exists_of_bare_cons {b ss : List Statement} {s : Statement}
    (h : Block.bare b = s :: ss) :
    ∃ s' ss', b = s' :: ss' ∧ s'.bare = s ∧ Block.bare ss' = ss := by
  cases b with
  | nil => simp [Block.bare] at h
  | cons s' ss' => exact ⟨s', ss', rfl, List.cons.inj h⟩

theorem Statement.exists_of_bare_literal {s : Statement} {v : Token}
    (h : s.bare = .literal v) : ∃ w, s = .literal w ∧ w.bare = v := by
  cases s with
  | literal w => exact ⟨w, rfl, Statement.literal.inj h⟩
  | _ => simp [Statement.bare] at h

theorem Statement.exists_of_bare_identifier {s : Statement} {y : Token}
    (h : s.bare = .identifier y) : ∃ z, s = .identifier z ∧ z.bare = y := by
  cases s with
  | identifier z => exact ⟨z, rfl, Statement.identifier.inj h⟩
  | _ => simp [Statement.bare] at h

theorem Statement.exists_of_bare_assignment {s value : Statement} {x : Token}
    (h : s.bare = .assignment .empty x value) :
    ∃ k y w, s = .assignment k y w ∧ y.bare = x ∧ w.bare = value := by
  cases s with
  | assignment k y w => exact ⟨k, y, w, rfl, (Statement.assignment.inj h).2⟩
  | _ => simp [Statement.bare] at h

theorem Statement.exists_of_bare_display {s value : Statement}
    (h : s.bare = .display .empty value) : ∃ k w, s = .display k w ∧ w.bare = value := by
  cases s with
  | display k w => exact ⟨k, w, rfl, (Statement.display.inj h).2⟩
  | _ => simp [Statement.bare] at h

end Kode
