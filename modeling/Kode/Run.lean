import Kode.Input
import Kode.RuntimeError
import Kode.Scope
import Kode.Statement
import Kode.Value.Literal

/-!
# Running programs

What a program does while it runs: it binds names, writes text and reads lines.
`State` holds all of it, and a `Run` is a step from one state to the next that
comes to a result or stops. What was done before a step stopped stays done.

There are two reasons to stop. A program may fail, and then it points at what
is to blame. Or it may use up its *fuel*, the number of rounds that each of its
loops may take: that says nothing about the program but that it needs more.
-/

namespace Kode

/-- What a running program has come to so far. -/
structure State where
  scope : Scope
  /-- What has been written. -/
  output : String
  /-- The lines still to be read. -/
  answers : List Answer
  /-- A line about every statement that was evaluated, if that is asked for. -/
  trace : Option String

/-- Why a program stops before its end. -/
inductive Stop
  | failed (error : RuntimeError)
  /-- A loop took more rounds than it was allowed. -/
  | outOfFuel
deriving DecidableEq

/-- Fuel for runs that are not meant to be limited: more rounds than a loop could
    take in the time there is. -/
def ampleFuel : Nat := 1000000000000000000

/-- A step of a running program. -/
abbrev Run (α : Type) := EStateM Stop State α

/-- What a run comes to, and the state that it leaves. -/
abbrev Outcome := EStateM.Result Stop State Located

/-- The value of a name that is used at this place. -/
def Scope.resolve (s : Scope) (name : String) (site : Span) : Except RuntimeError Located :=
  match s.get? name with
  | some l => .ok l
  | none => .error (.single (.undefinedVariable name) site)

namespace State

/-- The state before the first statement. -/
def initial (answers : List Answer) : State :=
  ⟨.empty, "", answers, none⟩

end State

namespace Run

/-- Stops with an error. -/
def fail {α : Type} (e : RuntimeError) : Run α :=
  throw (.failed e)

/-- The value of the variable that the token names, attributed to the token. -/
def lookUp (token : Token) : Run Located := do
  match (← get).scope.resolve token.text token.span with
  | .ok l => return l.at token.span
  | .error e => fail e

/-- Binds a name. -/
def assign (name : String) (value : Located) : Run Unit :=
  modify fun st => { st with scope := st.scope.put name value }

/-- Writes a line. -/
def write (line : String) : Run Unit :=
  modify fun st => { st with output := st.output ++ line ++ "\n" }

/-- Takes the next line of input. -/
def ask : Run Answer :=
  modifyGet fun st =>
    match st.answers with
    | [] => (.endOfInput, st)
    | a :: rest => (a, { st with answers := rest })

/-- The value of the next line of input, for the `INPUT` at this place. -/
def read (site : Span) : Run Located := do
  match ← ask with
  | .line text => return ⟨Value.ofInput text, site⟩
  | .failure reason => fail (.single (.inputFailed reason) site)
  | .endOfInput => fail (.single .inputExhausted site)

/-- The result of an operator. -/
def operate (op : Operator) (lhs rhs : Located) : Run Located :=
  match op.apply lhs.value rhs.value with
  | .ok v => return ⟨v, lhs.span.merge rhs.span⟩
  | .error f => fail (.ofFault op lhs rhs f)

/-- The truth value that a condition has come to. -/
def decide (l : Located) : Run Bool :=
  match l.value with
  | .boolean b => return b
  | v => fail (.single (.nonBooleanCondition v.kind) l.span)

/-- Runs in a block of its own: what is first bound in it does not outlive it,
    however it ends. -/
def framed {α : Type} (r : Run α) : Run α := fun st =>
  match r { st with scope := st.scope.push } with
  | .ok a st => .ok a { st with scope := st.scope.pop }
  | .error e st => .error e { st with scope := st.scope.pop }

/-- Runs, and then adds a line about the statement to the trace. -/
def noted (s : Statement) (r : Run Located) : Run Located := do
  let l ← r
  modify fun st =>
    { st with trace := st.trace.map fun lines =>
        lines ++ "[" ++ s.span.offsets ++ "] " ++ s.label ++ " => " ++ l.value.shown ++ "\n" }
  return l

/-- Repeats the body as long as the condition holds, at most `fuel` times. The
    result is that of the last round; `last` is what there is before the first. -/
def iterate (condition : Run Bool) (body : Run Located) : Nat → Located → Run Located
  | 0, _ => throw .outOfFuel
  | fuel + 1, last => do
    if ← condition then iterate condition body fuel (← body) else return last

end Run

/-- The result of what does nothing. -/
def Located.nothing : Located :=
  ⟨.none, .empty⟩

end Kode
