import Kode.Golden
import Kode.Statement.Format
import Kode.Statement.Outline

/-!
# The command line

A command is a word followed by the files it is to be done to; words with two
hyphens in front are flags, wherever they stand. Files are taken in order, and
one that fails does not keep the others from being taken.

A command line that cannot be used has an exit code of its own
(`Exit.unusable`). Whether the word is one of a command is only seen once the
first file has been read.
-/

namespace Kode

/-- How the work has ended. -/
inductive Exit
  | success
  /-- Something is wrong with a file. -/
  | failure
  /-- The command line makes no sense. -/
  | unusable
deriving DecidableEq, Repr

/-- The exit code. -/
def Exit.code : Exit → Nat
  | success => 0
  | failure => 1
  | unusable => 2

/-- What can be done to a program. -/
inductive Command
  | run
  /-- Prints the tree of statements. -/
  | outline
  /-- Prints the program in its canonical form. -/
  | format
  /-- Tells whether the program is in its canonical form. -/
  | check
deriving DecidableEq, Repr

namespace Command

/-- The command of this name. -/
def ofWord? (word : String) : Option Command :=
  if word = "run" then some run
  else if word = "ast" then some outline
  else if word = "fmt" then some format
  else if word = "check" then some check
  else none

variable {m : Type → Type} [Monad m] [Console m]

/-- Runs a program, and reports its failure. -/
def runProgram (fuel : Nat) (traced : Bool) (b : Block) : m Bool := do
  match ← Console.execute fuel traced b with
  | none => return true
  | some .outOfFuel => return false
  | some (.failed e) => do
    Console.complain e.report
    return false

/-- Tells whether a program is in its canonical form. -/
def checkProgram (s : Source) (b : Block) : m Bool := do
  let canonical := b.format == s.text
  Console.complain (s.name ++ (if canonical then ": formatted\n" else ": not formatted\n"))
  return canonical

/-- Does the command to the program that a source is the text of. -/
def perform (fuel : Nat) (traced : Bool) (c : Command) (s : Source) : m Bool :=
  match s.parse with
  | .error e => do
    Console.complain e.report
    return false
  | .ok b =>
    match c with
    | run => runProgram fuel traced b
    | outline => do
      Console.print ((Block.outline b).render 0 ++ "\n")
      return true
    | format => do
      Console.print b.format
      return true
    | check => checkProgram s b

end Command

namespace CommandLine

/-- How the program is to be used. -/
def usage : String :=
  "Usage: kode <command> [--debug] [files...]\n" ++
  "       kode test <dirs...> [--bless]\n" ++
  "\n" ++
  "Commands:\n" ++
  "  run    Run program(s), reading INPUT from stdin\n" ++
  "  ast    Print the parsed statement tree\n" ++
  "  fmt    Format program(s) and print to stdout\n" ++
  "  check  Check if program(s) are formatted\n" ++
  "  test   Replay each <dir>/*.kode against its .out file\n" ++
  "\n" ++
  "Examples:\n" ++
  "  kode run hello.kode\n" ++
  "  kode run --debug hello.kode\n" ++
  "  kode test tests/programs --bless\n"

/-- Whether the argument is a flag. -/
def isFlag (argument : String) : Bool :=
  ['-', '-'].isPrefixOf argument.toList

/-- Whether the flag is one that means something. -/
def isKnownFlag (flag : String) : Bool :=
  flag = "--debug" || flag = "--bless"

variable {m : Type → Type} [Monad m] [Console m]

/-- Gives up because of the command line. -/
def reject (reason : String) : m Exit := do
  Console.complain reason
  return .unusable

/-- Does to every file what the word says; `failed` tells whether one has
    failed before. -/
def onFiles (fuel : Nat) (traced : Bool) (word : String) (failed : Bool) : List String → m Exit
  | [] => return if failed then .failure else .success
  | path :: rest => do
    match ← Console.readText (.ofText path) with
    | .error f => do
      Console.complain (path ++ ": " ++ f.message ++ "\n")
      onFiles fuel traced word true rest
    | .ok text =>
      match Command.ofWord? word with
      | none => reject ("Unknown command: " ++ word ++ "\n")
      | some c => do
        let passed ← c.perform fuel traced ⟨path, text, 0⟩
        onFiles fuel traced word (failed || !passed) rest

/-- Does what the arguments say. -/
def perform (fuel : Nat) : List String → m Exit
  | [] => reject usage
  | word :: arguments =>
    let flags := arguments.filter isFlag
    let files := arguments.filter fun a => !isFlag a
    if word = "--help" || word = "-h" then reject usage
    else
      match flags.find? fun f => !isKnownFlag f with
      | some flag => reject ("Unknown flag: " ++ flag ++ "\n")
      | none =>
        if files.isEmpty then reject "Error: no files specified\n"
        else if word = "test" then do
          let passed ← Golden.test fuel (flags.contains "--bless") files
          return if passed then .success else .failure
        else onFiles fuel (flags.contains "--debug") word false files

end CommandLine

end Kode
