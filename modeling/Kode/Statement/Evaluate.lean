import Kode.Run
import Kode.Statement.Parse

/-!
# Evaluation

Every statement has a result, a value with the span of what it was computed
from; that of a block is the result of its last statement. A variable, an
assignment, a condition and a loop attribute their results to themselves. An
operator attributes its result to what its operands' results are attributed
to, and `SHOW` passes on the result of its value.

The branches of a condition and the rounds of a loop run in a block of their
own, together with the condition. A loop opens a single block for all rounds.
-/

namespace Kode

mutual

/-- Evaluates a statement. Each loop may take `fuel` rounds. -/
def Statement.eval (fuel : Nat) : Statement → Run Located
  | s@(.sequence body) => Run.noted s (Block.evalAfter fuel body .nothing)
  | s@(.literal token) =>
    Run.noted s <| return match token.kind with
      | .literal v => ⟨v, token.span⟩
      | _ => ⟨.none, token.span⟩
  | s@(.identifier token) => Run.noted s (Run.lookUp token)
  | s@(.assignment _ target value) =>
    Run.noted s do
      let l ← value.eval fuel
      Run.assign target.text l
      return l.at s.span
  | s@(.operation lhs op _ rhs) =>
    Run.noted s do
      let l ← lhs.eval fuel
      let r ← rhs.eval fuel
      Run.operate op l r
  | s@(.display _ value) =>
    Run.noted s do
      let l ← value.eval fuel
      Run.write l.value.shown
      return l
  | s@(.input keyword) => Run.noted s (Run.read keyword)
  | s@(.conditional _ condition pass fail _) =>
    Run.noted s do
      let l ← Run.framed do
        if ← Run.decide (← condition.eval fuel) then Block.evalAfter fuel pass .nothing
        else Block.evalElse fuel fail
      return l.at s.span
  | s@(.loop _ condition body _) =>
    Run.noted s do
      -- One block for all rounds: what one binds is seen by the next.
      let l ← Run.framed <|
        Run.iterate (do Run.decide (← condition.eval fuel)) (Block.evalAfter fuel body .nothing)
          fuel .nothing
      return l.at s.span

/-- Evaluates statements one after the other. The result is that of the last
    one, or `last` if there are none. -/
def Block.evalAfter (fuel : Nat) : List Statement → Located → Run Located
  | [], last => return last
  | s :: ss, _ => do
    let l ← s.eval fuel
    Block.evalAfter fuel ss l

/-- Evaluates what follows an `ELSE`, if there is one. -/
def Block.evalElse (fuel : Nat) : Option (List Statement) → Run Located
  | none => return .nothing
  | some body => Block.evalAfter fuel body .nothing

end

/-- Evaluates a block. -/
def Block.eval (fuel : Nat) (b : Block) : Run Located :=
  Block.evalAfter fuel b .nothing

/-- Runs a program from a state. -/
def Block.run (fuel : Nat) (b : Block) (st : State) : Outcome :=
  Block.eval fuel b st

/-- What becomes of a text that is to be run. -/
inductive Execution
  /-- It is not a program. -/
  | rejected (error : ParseError)
  | ran (outcome : Outcome)

namespace Execution

/-- Runs the text of a program from a state. -/
def ofSource (fuel : Nat) (s : Source) (st : State) : Execution :=
  match s.parse with
  | .error e => .rejected e
  | .ok b => .ran (b.run fuel st)

end Execution

end Kode
