import Kode.Proofs.Grammar
import Kode.Proofs.Streams

/-!
# Parsing by recursive descent

The parser on streams. A block is read statement by statement, until its stream is empty
(`block`). For a statement eight rules are tried in turn, each on a copy of the stream; the
copy of the first one that applies replaces the stream (`attempt`). What is nested in a
statement is found by its first and its last place, and handed to a parser of its own as a
window between these (`enter`).

The places are computed while the stream moves on: a body is searched token by token for
its `ELSE` and its `END` (`scan`), the sides of an operator end before it and begin behind
it (`operation`).
-/

namespace Kode

namespace Stream

open Work

/-! ## Values and windows -/

section Parts

variable (nested : Stream → Work Block) (s : Stream)

/-- Hands the window over, while a statement is read from `s`. -/
def enter (w : Stream) : Work Block := do
  log (.enter s w)
  nested w

/-- The same for what follows an `ELSE`, if there is one. -/
def enterElse : Option Stream → Work (Option Block)
  | some w => do return some (← enter nested s w)
  | none => return none

/-- The value in the window. `anchor` is pointed at if there is none. -/
def value (anchor : Span) (w : Stream) : Work Statement := do
  if w.isEmpty then reject ⟨.expectedExpression, anchor⟩
  else return (← enter nested s w).value

/-- The value up to the first period, and the stream behind that. -/
def upToPeriod (anchor : Span) (s' : Stream) : Work (Statement × Stream) := do
  let (w, s') ← s'.takeUntil (.punctuation .period) true
  return (← value nested s anchor w, s')

/-- The window of one side of an operator, and the value in it. -/
def operand (op : Operator) (site : Span) (start stop : Nat) : Work Statement := do
  let w ← s.window start stop
  if w.isEmpty then reject ⟨.missingOperand op, site⟩
  else value nested s site w

end Parts

/-- The span of the next token, or `last` if there is none. -/
def nextSpan (last : Span) (s : Stream) : Work Span := do
  match ← s.peek with
  | some t => return t.span
  | none => return last

/-- The next token, which must be this keyword. -/
def expectKeyword (word : Keyword) (last : Span) (s : Stream) : Work (Token × Stream) := do
  match ← s.advanceIf (.keyword word) with
  | some r => return r
  | none => reject ⟨.expectedKeyword word, ← s.nextSpan last⟩

/-- Passes a period, if there is one. -/
def skipPeriod (s : Stream) : Work Stream := do
  match ← s.advanceIf (.punctuation .period) with
  | some (_, s') => return s'
  | none => return s

/-! ## Bodies -/

/-- The branches of a body, and its `END`. -/
structure Branches where
  pass : Stream
  fail : Option Stream
  close : Token

/-- Searches for the `END` of a body that starts at the place `start`, in a statement that
    starts at `opened`. So many blocks are open, the body among them, and the `ELSE` of the
    body was passed at `divide`, if it was. -/
def scan (opened start : Nat) (allowElse : Bool) :
    Nat → Nat → Option Nat → Stream → Work (Branches × Stream)
  | 0, _, _, _ => throw .outOfRounds
  | rounds + 1, depth, divide, s => do
    match ← s.advance with
    | none =>
      let w ← s.window opened s.position
      reject ⟨.unclosedBlock, ← w.span⟩
    | some (t, s') =>
      match t.keyword? with
      | some .IF | some .WHILE => scan opened start allowElse rounds (depth + 1) divide s'
      | some .END =>
        match depth with
        | 0 => throw .outOfBounds
        | 1 =>
          match divide with
          | some e =>
            let fail ← s'.window (e + 1) s.position
            let pass ← s'.window start e
            return (⟨pass, some fail, t⟩, s')
          | none =>
            let pass ← s'.window start s.position
            return (⟨pass, none, t⟩, s')
        | depth + 2 => scan opened start allowElse rounds (depth + 1) divide s'
      | some .ELSE =>
        if allowElse && depth == 1 then
          match divide with
          | some _ => reject ⟨.duplicateElse, t.span⟩
          | none => scan opened start allowElse rounds depth (some s.position) s'
        else scan opened start allowElse rounds depth divide s'
      | _ => scan opened start allowElse rounds depth divide s'

/-- What follows the keyword of a block, up to the `END` and a period: the window of the
    condition, the word behind it, and the branches. -/
def parts (rounds : Nat) (word : Keyword) (allowElse : Bool) (opened : Nat) (keyword : Token)
    (s : Stream) : Work ((Stream × Token × Branches) × Stream) := do
  let (condition, s) ← s.takeUntil (.keyword word) false
  let (w, s) ← s.expectKeyword word keyword.span
  let (branches, s) ← scan opened s.position allowElse rounds 1 none s
  return ((condition, w, branches), ← s.skipPeriod)

/-! ## Rules -/

/-- The statement, if the rule applies, and the stream behind what was read. -/
abbrev Rule := Stream → Work (Option Statement × Stream)

/-- A token that is all there is. -/
def lone (p : Pattern) (make : Token → Statement) : Rule := fun s => do
  if (← s.length) = 1 then
    match ← s.advanceIf p with
    | some (t, s') => return (some (make t), s')
    | none => return (none, s)
  else return (none, s)

/-- What begins with a keyword. -/
def beginning (word : Keyword) (rest : Token → Rule) : Rule := fun s => do
  match ← s.advanceIf (.keyword word) with
  | some (keyword, s') => rest keyword s'
  | none => return (none, s)

/-- `INPUT`, if nothing or a period follows. -/
def input : Rule :=
  beginning .INPUT fun keyword s => do
    if s.isEmpty then return (some (.input keyword.span), s)
    else
      match ← s.advanceIf (.punctuation .period) with
      | some (_, s') => return (some (.input keyword.span), s')
      | none => return (none, s)

section Rules

variable (rounds : Nat) (nested : Stream → Work Block)

def conditional : Rule := fun s =>
  s.beginning .IF fun keyword s' => do
    let ((condition, word, branches), s'') ← s'.parts rounds .THEN true s.position keyword
    let condition ← value nested s (keyword.span.merge word.span) condition
    let pass ← enter nested s branches.pass
    let fail ← enterElse nested s branches.fail
    return (some (.conditional keyword.span condition pass fail branches.close.span), s'')

def loop : Rule := fun s =>
  s.beginning .WHILE fun keyword s' => do
    let ((condition, word, branches), s'') ← s'.parts rounds .DO false s.position keyword
    let condition ← value nested s (keyword.span.merge word.span) condition
    let pass ← enter nested s branches.pass
    return (some (.loop keyword.span condition pass branches.close.span), s'')

def display : Rule := fun s =>
  s.beginning .SHOW fun keyword s' => do
    let (value, s'') ← upToPeriod nested s keyword.span s'
    return (some (.display keyword.span value), s'')

def assignment : Rule := fun s =>
  s.beginning .SET fun keyword s' => do
    match ← s'.advanceIf .identifier with
    | none => reject ⟨.expectedIdentifier, ← s'.nextSpan keyword.span⟩
    | some (target, s') =>
      let (word, s') ← s'.expectKeyword .TO target.span
      let (value, s'') ← upToPeriod nested s word.span s'
      return (some (.assignment keyword.span target value), s'')

/-- Operands and operators, up to the end. -/
def operation : Rule := fun s => do
  let ts ← s.remaining
  if !s.isEmpty && ts.all fun t => t.isOperand || t.operator?.isSome then
    match cutLoosest? ts with
    | none => reject ⟨.missingOperator, ← s.span⟩
    | some sides =>
      let stop := s.position + (← s.length)
      let place := s.position + sides.lhs.length
      let site := (← s.token sides.lhs.length).span
      let lhs ← operand nested s sides.op site s.position place
      let rhs ← operand nested s sides.op site (place + 1) stop
      let s' ← s.window stop stop
      log (.move s s')
      return (some (.operation lhs sides.op site rhs), s')
  else return (none, s)

/-- The rules, in the order in which they are tried. -/
def rules : List Rule :=
  [lone .literal .literal, lone .identifier .identifier, conditional rounds nested,
    loop rounds nested, display nested, assignment nested, input, operation nested]

end Rules

/-! ## Statements and blocks -/

/-- Tries the rule on a copy of the stream, which replaces the stream if the rule applies. -/
def attempt (rule : Rule) : Rule := fun s => do
  match ← rule s with
  | (some statement, trial) =>
    log (.commit s trial)
    return (some statement, trial)
  | (none, _) => return (none, s)

/-- Tries the rules until one applies. -/
def tryRules : List Rule → Rule
  | [], s => return (none, s)
  | rule :: rules, s => do
    match ← attempt rule s with
    | (some statement, s') => return (some statement, s')
    | (none, s') => tryRules rules s'

/-- What comes of a statement when the rules have been tried. -/
def settle : Option Statement × Stream → Work (Statement × Stream)
  | (some statement, s) => return (statement, s)
  | (none, s) => do reject ⟨.noRuleMatches, ← s.span⟩

def statement (rounds : Nat) (nested : Stream → Work Block) (s : Stream) :
    Work (Statement × Stream) := do
  settle (← tryRules (rules rounds nested) s)

/-- Reads statements until the stream is empty. -/
def block (statement : Stream → Work (Statement × Stream)) : Nat → Stream → Work Block
  | 0, _ => throw .outOfRounds
  | rounds + 1, s => do
    if s.isEmpty then return []
    else
      let (first, s') ← statement s
      return first :: (← block statement rounds s')

/-- The block in a window, with so many levels left to be nested. -/
def blockAt (rounds : Nat) : Nat → Stream → Work Block
  | 0, w => do reject ⟨.nestingTooDeep Block.maxDepth, ← w.span⟩
  | levels + 1, w => block (statement rounds (blockAt rounds levels)) rounds w

/-- The program that the tokens make up, if no loop needs more than so many rounds. -/
def parse (rounds : Nat) (ts : List Token) : Work Block :=
  blockAt rounds (Block.maxDepth + 1) (ofTokens ts)

end Stream

end Kode
