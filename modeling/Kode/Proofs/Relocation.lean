import Kode.Proofs.Bare
import Kode.Proofs.Parsing

/-!
# Programs in other places

The same tokens may stand in another place: in another source, further down, or
nowhere at all. A *relocation* says where each span goes; it must go along with
the joining of spans, as it is from joined spans that errors and results take
theirs. To take spans away is a relocation (`Relocation.forget`), and so is to
move a text to another place in another source (`Relocation.shift`).

No decision of the parser depends on a span, and none on how a token is written: it
looks at kinds only, and keeps the texts of literals and names. So to parse tokens in
another place is to parse them and to relocate what comes of it, be it a program or an
error; and in the same way tokens may be written otherwise, except for names, by
which values are found (`Rewording`).

* `Block.rewords_parseAt`: this, for a parser with any number of levels;
* `Block.ofTokens_relocate`: the same words, for the whole parser;
* `Derives.relocate`: and for the grammar;
* `Block.parseAt_of_map_bare`, `Derives.transfer`: tokens that differ by their
  spans only make up trees that differ by their spans only, or none at all for
  the same reason.
-/

namespace Kode

/-- A change of spans that goes along with joining them. -/
structure Relocation where
  /-- Where a span goes. -/
  move : Span → Span
  move_empty : move .empty = .empty
  move_merge : ∀ s t, move (s.merge t) = (move s).merge (move t)

namespace Relocation

/-- Takes all spans away. -/
def forget : Relocation :=
  ⟨fun _ => .empty, rfl, fun _ _ => rfl⟩

/-- Puts spans into the source, behind `k` bytes. -/
def shift (source : Source) (k : Nat) : Relocation where
  move
    | .empty => .empty
    | .located _ start stop ordered =>
      .located source (k + start) (k + stop) (Nat.add_le_add_left ordered k)
  move_empty := rfl
  move_merge s t := by
    cases s with
    | empty => simp
    | located =>
      cases t with
      | empty => simp
      | located =>
        simp only [Span.merge, Span.located.injEq, true_and]
        omega

end Relocation

/-- The token in its new place. -/
def Token.relocate (r : Relocation) (t : Token) : Token :=
  { t with span := r.move t.span }

mutual

/-- The statement in its new place. -/
def Statement.relocate (r : Relocation) : Statement → Statement
  | .sequence body => .sequence (Block.relocate r body)
  | .literal token => .literal (token.relocate r)
  | .identifier token => .identifier (token.relocate r)
  | .assignment keyword target value =>
    .assignment (r.move keyword) (target.relocate r) (value.relocate r)
  | .operation lhs op site rhs => .operation (lhs.relocate r) op (r.move site) (rhs.relocate r)
  | .display keyword value => .display (r.move keyword) (value.relocate r)
  | .input keyword => .input (r.move keyword)
  | .conditional keyword condition pass fail close =>
    .conditional (r.move keyword) (condition.relocate r) (Block.relocate r pass)
      (Block.relocateElse r fail) (r.move close)
  | .loop keyword condition body close =>
    .loop (r.move keyword) (condition.relocate r) (Block.relocate r body) (r.move close)

/-- The statements in their new places. -/
def Block.relocate (r : Relocation) : List Statement → List Statement
  | [] => []
  | s :: ss => s.relocate r :: Block.relocate r ss

/-- The same for what follows an `ELSE`, if there is one. -/
def Block.relocateElse (r : Relocation) : Option (List Statement) → Option (List Statement)
  | none => none
  | some body => some (Block.relocate r body)

end

/-- The error in its new place. -/
def ParseError.relocate (r : Relocation) (e : ParseError) : ParseError :=
  { e with span := r.move e.span }

mutual

/-- To take the spans away is to relocate to nowhere. -/
theorem Statement.relocate_forget (s : Statement) : s.relocate .forget = s.bare := by
  match s with
  | .sequence body => simp only [Statement.relocate, Statement.bare, Block.relocate_forget body]
  | .literal _ | .identifier _ | .input _ => rfl
  | .assignment _ _ value =>
    simp only [Statement.relocate, Statement.bare, value.relocate_forget]
    rfl
  | .operation lhs _ _ rhs =>
    simp only [Statement.relocate, Statement.bare, lhs.relocate_forget, rhs.relocate_forget]
    rfl
  | .display _ value =>
    simp only [Statement.relocate, Statement.bare, value.relocate_forget]
    rfl
  | .conditional _ condition pass fail _ =>
    simp only [Statement.relocate, Statement.bare, condition.relocate_forget,
      Block.relocate_forget pass, Block.relocateElse_forget fail]
    rfl
  | .loop _ condition body _ =>
    simp only [Statement.relocate, Statement.bare, condition.relocate_forget,
      Block.relocate_forget body]
    rfl

theorem Block.relocate_forget (b : List Statement) : Block.relocate .forget b = Block.bare b := by
  match b with
  | [] => rfl
  | s :: ss => simp only [Block.relocate, Block.bare, s.relocate_forget, Block.relocate_forget ss]

theorem Block.relocateElse_forget (b : Option (List Statement)) :
    Block.relocateElse .forget b = Block.bareElse b := by
  match b with
  | none => rfl
  | some body => simp only [Block.relocateElse, Block.bareElse, Block.relocate_forget body]

end

mutual

/-- Nothing is left of the places when the spans are taken away. -/
theorem Statement.bare_relocate (r : Relocation) (s : Statement) :
    (s.relocate r).bare = s.bare := by
  match s with
  | .sequence body => simp only [Statement.relocate, Statement.bare, Block.bare_relocate r body]
  | .literal _ | .identifier _ | .input _ => rfl
  | .assignment _ _ value =>
    simp only [Statement.relocate, Statement.bare, value.bare_relocate r]
    rfl
  | .operation lhs _ _ rhs =>
    simp only [Statement.relocate, Statement.bare, lhs.bare_relocate r, rhs.bare_relocate r]
  | .display _ value => simp only [Statement.relocate, Statement.bare, value.bare_relocate r]
  | .conditional _ condition pass fail _ =>
    simp only [Statement.relocate, Statement.bare, condition.bare_relocate r,
      Block.bare_relocate r pass, Block.bareElse_relocateElse r fail]
  | .loop _ condition body _ =>
    simp only [Statement.relocate, Statement.bare, condition.bare_relocate r,
      Block.bare_relocate r body]

theorem Block.bare_relocate (r : Relocation) (b : List Statement) :
    Block.bare (Block.relocate r b) = Block.bare b := by
  match b with
  | [] => rfl
  | s :: ss => simp only [Block.relocate, Block.bare, s.bare_relocate r, Block.bare_relocate r ss]

theorem Block.bareElse_relocateElse (r : Relocation) (b : Option (List Statement)) :
    Block.bareElse (Block.relocateElse r b) = Block.bareElse b := by
  match b with
  | none => rfl
  | some body => simp only [Block.relocateElse, Block.bareElse, Block.bare_relocate r body]

end

theorem Block.nesting_relocate (r : Relocation) (b : Block) :
    Block.nesting (Block.relocate r b) = Block.nesting b := by
  rw [← Block.nesting_bare, Block.bare_relocate, Block.nesting_bare]

/-! ## Other words in other places -/

/-- A relocation of tokens that may also be written in another way, unless they are
    names. -/
structure Rewording extends Relocation where
  /-- How a token of this kind and with this text is written. -/
  spell : TokenKind → String → String
  spell_identifier : ∀ text, spell .identifier text = text

/-- The relocation under which everything is written as before. -/
def Relocation.rewording (r : Relocation) : Rewording :=
  ⟨r, fun _ text => text, fun _ => rfl⟩

/-- The token in its new place, as it is written there. -/
def Token.reword (w : Rewording) (t : Token) : Token :=
  ⟨t.kind, w.spell t.kind t.text, w.move t.span⟩

mutual

/-- The statement in its new place. Of its words only the literals are kept as they are
    written, and the names. -/
def Statement.reword (w : Rewording) : Statement → Statement
  | .sequence body => .sequence (Block.reword w body)
  | .literal token => .literal (token.reword w)
  | .identifier token => .identifier (token.relocate w.toRelocation)
  | .assignment keyword target value =>
    .assignment (w.move keyword) (target.relocate w.toRelocation) (value.reword w)
  | .operation lhs op site rhs => .operation (lhs.reword w) op (w.move site) (rhs.reword w)
  | .display keyword value => .display (w.move keyword) (value.reword w)
  | .input keyword => .input (w.move keyword)
  | .conditional keyword condition pass fail close =>
    .conditional (w.move keyword) (condition.reword w) (Block.reword w pass)
      (Block.rewordElse w fail) (w.move close)
  | .loop keyword condition body close =>
    .loop (w.move keyword) (condition.reword w) (Block.reword w body) (w.move close)

/-- The statements in their new places. -/
def Block.reword (w : Rewording) : List Statement → List Statement
  | [] => []
  | s :: ss => s.reword w :: Block.reword w ss

/-- The same for what follows an `ELSE`, if there is one. -/
def Block.rewordElse (w : Rewording) : Option (List Statement) → Option (List Statement)
  | none => none
  | some body => some (Block.reword w body)

end

mutual

/-- A relocation is a rewording. -/
theorem Statement.reword_rewording (r : Relocation) (s : Statement) :
    s.reword r.rewording = s.relocate r := by
  match s with
  | .sequence body =>
    simp only [Statement.reword, Statement.relocate, Block.reword_rewording r body]
  | .literal _ | .identifier _ | .input _ => rfl
  | .assignment _ _ value | .display _ value =>
    simp only [Statement.reword, Statement.relocate, value.reword_rewording r]
    rfl
  | .operation lhs _ _ rhs =>
    simp only [Statement.reword, Statement.relocate, lhs.reword_rewording r,
      rhs.reword_rewording r]
    rfl
  | .conditional _ condition pass fail _ =>
    simp only [Statement.reword, Statement.relocate, condition.reword_rewording r,
      Block.reword_rewording r pass, Block.rewordElse_rewording r fail]
    rfl
  | .loop _ condition body _ =>
    simp only [Statement.reword, Statement.relocate, condition.reword_rewording r,
      Block.reword_rewording r body]
    rfl

theorem Block.reword_rewording (r : Relocation) (b : List Statement) :
    Block.reword r.rewording b = Block.relocate r b := by
  match b with
  | [] => rfl
  | s :: ss =>
    simp only [Block.reword, Block.relocate, s.reword_rewording r, Block.reword_rewording r ss]

theorem Block.rewordElse_rewording (r : Relocation) (b : Option (List Statement)) :
    Block.rewordElse r.rewording b = Block.relocateElse r b := by
  match b with
  | none => rfl
  | some body => simp only [Block.rewordElse, Block.relocateElse, Block.reword_rewording r body]

end

namespace Token

variable (w : Rewording)

@[simp] theorem keyword?_reword (t : Token) : (t.reword w).keyword? = t.keyword? := rfl

@[simp] theorem isPeriod_reword (t : Token) : (t.reword w).isPeriod = t.isPeriod := rfl

@[simp] theorem isIdentifier_reword (t : Token) :
    (t.reword w).isIdentifier = t.isIdentifier := rfl

@[simp] theorem isLiteral_reword (t : Token) : (t.reword w).isLiteral = t.isLiteral := rfl

@[simp] theorem operator?_reword (t : Token) : (t.reword w).operator? = t.operator? := rfl

/-- A name is written as before. -/
theorem reword_of_isIdentifier {t : Token} (h : t.isIdentifier = true) :
    t.reword w = t.relocate w.toRelocation := by
  rw [reword, kind_of_isIdentifier h, w.spell_identifier, relocate, kind_of_isIdentifier h]

theorem spanOf_reword (ts : List Token) : spanOf (ts.map (reword w)) = w.move (spanOf ts) := by
  induction ts with
  | nil => exact w.move_empty.symm
  | cons t ts ih => rw [List.map_cons, spanOf_cons, ih, spanOf_cons, w.move_merge]; rfl

end Token

/-! ## Cutting other words -/

/-- The parts in their new places. -/
def Cut.reword (w : Rewording) (c : Cut) : Cut :=
  ⟨c.before.map (Token.reword w), c.found.reword w, c.after.map (Token.reword w)⟩

/-- The parts in their new places. -/
def Body.reword (w : Rewording) (b : Body) : Body :=
  ⟨b.pass.map (Token.reword w), b.fail.map (List.map (Token.reword w)), b.close.reword w,
    b.rest.map (Token.reword w)⟩

/-- The fault in its new place. -/
def BodyFault.reword (w : Rewording) : BodyFault → BodyFault
  | unclosed => unclosed
  | duplicateElse token => duplicateElse (token.reword w)

/-- The parts in their new places. -/
def Sides.reword (w : Rewording) (s : Sides) : Sides :=
  ⟨s.lhs.map (Token.reword w), s.site.reword w, s.op, s.rhs.map (Token.reword w)⟩

section Cutting

variable (w : Rewording)

theorem cutAt?_reword {p : Token → Bool} (hp : ∀ t, p (t.reword w) = p t) (ts : List Token) :
    cutAt? p (ts.map (Token.reword w)) = (cutAt? p ts).map (Cut.reword w) := by
  induction ts with
  | nil => rfl
  | cons t ts ih =>
    rw [List.map_cons, cutAt?, cutAt?, hp, ih]
    split
    · rfl
    · rw [Option.map_map, Option.map_map]
      rfl

theorem scanBody_reword (rule : ElseRule) (depth : Nat) (ts : List Token) :
    scanBody rule depth (ts.map (Token.reword w)) =
      ((scanBody rule depth ts).map (Body.reword w)).mapError (BodyFault.reword w) := by
  have step {t : Token} {x y : Except BodyFault Body}
      (h : y = (x.map (Body.reword w)).mapError (BodyFault.reword w)) :
      y.map (Body.cons (t.reword w)) =
        ((x.map (Body.cons t)).map (Body.reword w)).mapError (BodyFault.reword w) := by
    subst h
    cases x <;> rfl
  induction ts generalizing rule depth with
  | nil => rfl
  | cons t ts ih =>
    rw [List.map_cons, scanBody.eq_def, scanBody.eq_def]
    simp only [Token.keyword?_reword]
    cases t.keyword? with
    | none => exact step (ih rule depth)
    | some word =>
      cases word with
      | IF | WHILE => exact step (ih rule (depth + 1))
      | END =>
        cases depth with
        | zero => rfl
        | succ d => exact step (ih rule d)
      | ELSE =>
        cases depth with
        | succ d => exact step (ih rule (d + 1))
        | zero =>
          cases rule with
          | expected =>
            simp only [ih .refused 0]
            cases scanBody .refused 0 ts <;> rfl
          | refused => rfl
          | ignored => exact step (ih .ignored 0)
      | _ => exact step (ih rule depth)

theorem cutLoosest?_reword (ts : List Token) :
    cutLoosest? (ts.map (Token.reword w)) = (cutLoosest? ts).map (Sides.reword w) := by
  induction ts with
  | nil => rfl
  | cons t ts ih =>
    rw [List.map_cons, cutLoosest?, cutLoosest?, ih, Token.operator?_reword]
    cases t.operator? with
    | none => cases cutLoosest? ts <;> rfl
    | some op =>
      cases cutLoosest? ts with
      | none => rfl
      | some s =>
        simp only [Option.map_some, Sides.reword]
        split <;> rfl

end Cutting

/-! ## Parsing other words -/

namespace Relocation

variable {α α' β β' : Type} {r : Relocation} {f : α → α'} {g : β → β'}

/-- The second result is the first one in its new place. -/
def Carries (r : Relocation) (f : α → α') (x : Except ParseError α) (y : Except ParseError α') :
    Prop :=
  y = (x.map f).mapError (ParseError.relocate r)

theorem carries_bind {x : Except ParseError α} {y : Except ParseError α'}
    {k : α → Except ParseError β} {k' : α' → Except ParseError β'} (hx : r.Carries f x y)
    (hk : ∀ a, r.Carries g (k a) (k' (f a))) : r.Carries g (x >>= k) (y >>= k') := by
  rw [Carries] at hx
  subst hx
  cases x with
  | ok a => exact hk a
  | error e => rfl

theorem carries_map {x : Except ParseError α} {y : Except ParseError α'} {h : α → β}
    {h' : α' → β'} (hx : r.Carries f x y) (hh : ∀ a, h' (f a) = g (h a)) :
    r.Carries g (x.map h) (y.map h') := by
  rw [Carries] at hx
  subst hx
  cases x with
  | ok a => exact congrArg Except.ok (hh a)
  | error e => rfl

end Relocation

open Relocation

/-- The parser makes the same of tokens in their new places. -/
def Rewords (w : Rewording) (nested : BlockParser) : Prop :=
  ∀ ts, w.Carries (Block.reword w) (nested ts) (nested (ts.map (Token.reword w)))

/-- What was parsed and what is left, in their new places. -/
def Rewording.parsed (w : Rewording) (p : Statement × List Token) : Statement × List Token :=
  (p.1.reword w, p.2.map (Token.reword w))

namespace Statement

variable {w : Rewording} {nested : BlockParser}

theorem carries_cutTerminator {p : Token → Bool} (hp : ∀ t, p (t.reword w) = p t)
    (expected : Pattern) (opener : Token) (ts : List Token) :
    w.Carries (Cut.reword w) (cutTerminator p expected opener ts)
      (cutTerminator p expected (opener.reword w) (ts.map (Token.reword w))) := by
  rw [Carries, cutTerminator, cutTerminator, cutAt?_reword w hp]
  cases cutAt? p ts with
  | some c => rfl
  | none =>
    rw [← List.map_cons, Token.spanOf_reword]
    rfl

theorem carries_cutCondition (word : Keyword) (keyword : Token) (ts : List Token) :
    w.Carries (Cut.reword w) (cutCondition word keyword ts)
      (cutCondition word (keyword.reword w) (ts.map (Token.reword w))) :=
  carries_cutTerminator (fun _ => rfl) _ _ _

theorem carries_cutBody (rule : ElseRule) (all ts : List Token) :
    w.Carries (Body.reword w) (cutBody rule all ts)
      (cutBody rule (all.map (Token.reword w)) (ts.map (Token.reword w))) := by
  rw [Carries, cutBody, cutBody, scanBody_reword, Token.spanOf_reword]
  cases scanBody rule 0 ts with
  | ok b => rfl
  | error e => cases e <;> rfl

theorem dropPeriod_reword (ts : List Token) :
    dropPeriod (ts.map (Token.reword w)) = (dropPeriod ts).map (Token.reword w) := by
  cases ts with
  | nil => rfl
  | cons t ts =>
    rw [List.map_cons, dropPeriod, dropPeriod, Token.isPeriod_reword]
    split <;> rfl

variable (h : Rewords w nested)

include h

theorem carries_parseValue (anchor : Span) (ts : List Token) :
    w.Carries (reword w) (parseValue nested anchor ts)
      (parseValue nested (w.move anchor) (ts.map (Token.reword w))) := by
  cases ts with
  | nil => rfl
  | cons t ts =>
    refine carries_map (h (t :: ts)) fun b => ?_
    match b with
    | [] | [_] | _ :: _ :: _ => rfl

theorem carries_parseUpToPeriod (opener : Token) (ts : List Token) :
    w.Carries w.parsed (parseUpToPeriod nested opener ts)
      (parseUpToPeriod nested (opener.reword w) (ts.map (Token.reword w))) :=
  carries_bind (carries_cutTerminator (fun _ => rfl) _ _ _) fun c =>
    carries_bind (carries_parseValue h _ c.before) fun _ => rfl

theorem carries_parseElse (b : Option (List Token)) :
    w.Carries (Block.rewordElse w) (parseElse nested b)
      (parseElse nested (b.map (List.map (Token.reword w)))) := by
  cases b with
  | none => rfl
  | some ts => exact carries_map (h ts) fun _ => rfl

theorem carries_parseConditional (keyword : Token) (ts : List Token) :
    w.Carries w.parsed (parseConditional nested keyword ts)
      (parseConditional nested (keyword.reword w) (ts.map (Token.reword w))) := by
  refine carries_bind (carries_cutCondition .THEN keyword ts) fun c => ?_
  refine carries_bind (carries_cutBody .expected (keyword :: ts) c.after) fun body => ?_
  have hanchor : (keyword.reword w).span.merge (c.reword w).found.span =
      w.move (keyword.span.merge c.found.span) := (w.move_merge _ _).symm
  rw [hanchor]
  refine carries_bind (carries_parseValue h _ c.before) fun condition => ?_
  refine carries_bind (h body.pass) fun pass => ?_
  refine carries_bind (carries_parseElse h body.fail) fun fail => ?_
  rw [Body.reword, dropPeriod_reword]
  rfl

theorem carries_parseLoop (keyword : Token) (ts : List Token) :
    w.Carries w.parsed (parseLoop nested keyword ts)
      (parseLoop nested (keyword.reword w) (ts.map (Token.reword w))) := by
  refine carries_bind (carries_cutCondition .DO keyword ts) fun c => ?_
  refine carries_bind (carries_cutBody .ignored (keyword :: ts) c.after) fun body => ?_
  have hanchor : (keyword.reword w).span.merge (c.reword w).found.span =
      w.move (keyword.span.merge c.found.span) := (w.move_merge _ _).symm
  rw [hanchor]
  refine carries_bind (carries_parseValue h _ c.before) fun condition => ?_
  refine carries_bind (h body.pass) fun pass => ?_
  rw [Body.reword, dropPeriod_reword]
  rfl

theorem carries_parseDisplay (keyword : Token) (ts : List Token) :
    w.Carries w.parsed (parseDisplay nested keyword ts)
      (parseDisplay nested (keyword.reword w) (ts.map (Token.reword w))) :=
  carries_bind (carries_parseUpToPeriod h keyword ts) fun _ => rfl

theorem carries_parseAssignment (keyword : Token) (ts : List Token) :
    w.Carries w.parsed (parseAssignment nested keyword ts)
      (parseAssignment nested (keyword.reword w) (ts.map (Token.reword w))) := by
  match ts with
  | [] => rfl
  | [target] =>
    simp only [Carries, parseAssignment, List.map_cons, List.map_nil, Token.isIdentifier_reword]
    split <;> rfl
  | target :: word :: rest =>
    simp only [parseAssignment, List.map_cons]
    by_cases hx : target.isIdentifier = true
    · have hx' : (target.reword w).isIdentifier = true := hx
      rw [if_pos hx, if_pos hx']
      by_cases hw : word.isKeyword .TO = true
      · have hw' : (word.reword w).isKeyword .TO = true := hw
        rw [if_pos hw, if_pos hw', Token.reword_of_isIdentifier w hx]
        exact carries_bind (carries_parseUpToPeriod h word rest) fun _ => rfl
      · have hw' : ¬ (word.reword w).isKeyword .TO = true := hw
        rw [if_neg hw, if_neg hw']
        rfl
    · have hx' : ¬ (target.reword w).isIdentifier = true := hx
      rw [if_neg hx, if_neg hx']
      rfl

theorem carries_parseOperand (op : Operator) (site : Span) (ts : List Token) :
    w.Carries (reword w) (parseOperand nested op site ts)
      (parseOperand nested op (w.move site) (ts.map (Token.reword w))) := by
  cases ts with
  | nil => rfl
  | cons t ts => exact carries_parseValue h site (t :: ts)

theorem carries_parseOperation (ts : List Token) :
    w.Carries w.parsed (parseOperation nested ts)
      (parseOperation nested (ts.map (Token.reword w))) := by
  rw [Carries, parseOperation, parseOperation, cutLoosest?_reword, Token.spanOf_reword,
    List.all_map]
  change (if (ts.all fun t => t.isOperand || t.operator?.isSome) = true then _ else _) = _
  split
  · cases cutLoosest? ts with
    | none => rfl
    | some sides =>
      exact carries_bind (carries_parseOperand h sides.op sides.site.span sides.lhs) fun _ =>
        carries_bind (carries_parseOperand h sides.op sides.site.span sides.rhs) fun _ => rfl
  · rfl

theorem carries_parseInput (keyword : Token) (ts : List Token) :
    w.Carries w.parsed (parseInput nested keyword ts)
      (parseInput nested (keyword.reword w) (ts.map (Token.reword w))) := by
  cases ts with
  | nil => rfl
  | cons t ts =>
    rw [Carries, List.map_cons, parseInput, parseInput, Token.isPeriod_reword]
    split
    · rfl
    · exact carries_parseOperation h (keyword :: t :: ts)

theorem carries_parseStatement (t : Token) (ts : List Token) :
    w.Carries w.parsed (parseStatement nested t ts)
      (parseStatement nested (t.reword w) (ts.map (Token.reword w))) := by
  rw [Carries, parseStatement, parseStatement, Token.keyword?_reword]
  split
  · exact carries_parseConditional h t ts
  · exact carries_parseLoop h t ts
  · exact carries_parseDisplay h t ts
  · exact carries_parseAssignment h t ts
  · exact carries_parseInput h t ts
  · rw [List.isEmpty_map, Token.isLiteral_reword, Token.isIdentifier_reword]
    split
    · rfl
    · split
      · rename_i hx
        rw [Bool.and_eq_true] at hx
        rw [Token.reword_of_isIdentifier w hx.2]
        rfl
      · exact carries_parseOperation h (t :: ts)

end Statement

namespace Block

variable {w : Rewording}

theorem rewords_parse {nested : BlockParser} (h : Rewords w nested) :
    Rewords w (parse nested) := by
  intro ts
  fun_induction parse nested ts with
  | case1 => rw [Carries, List.map_nil, parse.eq_def]; rfl
  | case2 t ts e he =>
    have hs := Statement.carries_parseStatement h t ts
    rw [he] at hs
    rw [Carries, List.map_cons, parse_cons_eq, hs]
    rfl
  | case3 t ts s rest hs ih =>
    have hs' := Statement.carries_parseStatement h t ts
    rw [hs] at hs'
    rw [Carries, List.map_cons, parse_cons_eq, hs']
    exact carries_map ih fun _ => rfl

/-- Each level that is left is parsed the same. -/
theorem rewords_parseAt : ∀ levels, Rewords w (parseAt levels)
  | 0 => rewords_parse fun ts => by
    rw [Carries, Token.spanOf_reword]
    rfl
  | levels + 1 => rewords_parse (rewords_parseAt levels)

theorem relocates_parseAt {r : Relocation} (levels : Nat) (ts : List Token) :
    r.Carries (relocate r) (parseAt levels ts) (parseAt levels (ts.map (Token.relocate r))) := by
  have hreworded := rewords_parseAt (w := r.rewording) levels ts
  rwa [funext (reword_rewording r)] at hreworded

/-- To parse tokens in other places is to parse them and to relocate the result. -/
theorem ofTokens_relocate {r : Relocation} (ts : List Token) :
    ofTokens (ts.map (Token.relocate r)) =
      ((ofTokens ts).map (relocate r)).mapError (ParseError.relocate r) :=
  relocates_parseAt maxDepth ts

/-- Tokens that differ by their spans only are parsed the same up to spans, or
    are no program for the same reason. -/
theorem parseAt_of_map_bare (levels : Nat) {ts us : List Token}
    (hus : us.map Token.bare = ts.map Token.bare) :
    ((parseAt levels us).map bare).mapError ParseError.fault =
      ((parseAt levels ts).map bare).mapError ParseError.fault := by
  have hbare (x : Except ParseError Block) : (x.map bare).mapError ParseError.fault =
      ((x.map (Block.relocate .forget)).mapError (ParseError.relocate .forget)).mapError
        ParseError.fault := by
    cases x with
    | ok b => exact congrArg Except.ok (relocate_forget b).symm
    | error e => rfl
  rw [hbare, hbare, ← relocates_parseAt levels us, ← relocates_parseAt levels ts]
  exact congrArg (fun ts => (parseAt levels ts).mapError ParseError.fault) hus

end Block

namespace Derives

variable {ts us : List Token} {b : Block}

/-- Tokens in other places make up the program in its new place. -/
theorem relocate (r : Relocation) (h : Derives ts b) :
    Derives (ts.map (Token.relocate r)) (Block.relocate r b) := by
  -- With enough levels the parser accepts both.
  have haccepts := Block.accepts_parseAt (Block.nesting b)
  have hrelocated := Block.relocates_parseAt (r := r) (Block.nesting b) ts
  rw [(haccepts ts b).2 ⟨h, Nat.lt_succ_self _⟩] at hrelocated
  exact ((haccepts _ _).1 hrelocated).1

/-- Tokens that differ by their spans only have trees that differ by their spans
    only. -/
theorem transfer (h : Derives ts b) (hus : us.map Token.bare = ts.map Token.bare) :
    ∃ c, Derives us c ∧ Block.bare c = Block.bare b := by
  have haccepts := Block.accepts_parseAt (Block.nesting b)
  have hparsed := Block.parseAt_of_map_bare (Block.nesting b) hus
  rw [(haccepts ts b).2 ⟨h, Nat.lt_succ_self _⟩] at hparsed
  cases hc : Block.parseAt (Block.nesting b) us with
  | error e =>
    rw [hc] at hparsed
    exact absurd hparsed nofun
  | ok c =>
    rw [hc] at hparsed
    exact ⟨c, ((haccepts us c).1 hc).1, Except.ok.inj hparsed⟩

end Derives

end Kode
