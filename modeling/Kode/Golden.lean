import Kode.Console
import Kode.Text.Lossy

/-!
# Golden files

A directory of programs is tested against what they are known to come to. A
program is a file whose name ends in `.kode`, and beside it stands its *golden
file*, named alike but ending in `.out`. It holds the *transcript* of the
program: what it writes when there is no input, and the report of the error if
there is one. The program is named by its file name alone, so that the
transcript does not depend on where the directory is.

A directory is *blessed* by writing the golden files instead of comparing them.
-/

namespace Kode

namespace Golden

/-- What a program comes to without input. -/
def transcript (fuel : Nat) (s : Source) : String :=
  match Execution.ofSource fuel s (.initial []) with
  | .rejected e => e.report
  | .ran (.ok _ st) => st.output
  | .ran (.error (.failed e) st) => st.output ++ e.report
  | .ran (.error .outOfFuel st) => st.output

/-- The path of what is in a directory. -/
def pathIn (directory : Path) (name : List UInt8) : Path :=
  if directory = [] ∨ directory.getLast? = some slash then directory ++ name
  else directory ++ slash :: name

/-- The ending of the name of a program. -/
def programEnding : List UInt8 := Text.bytes ".kode"

/-- The ending of the name of a golden file. -/
def goldenEnding : List UInt8 := Text.bytes ".out"

/-- The name of a program without its ending; nothing if this is not the name
    of a program. -/
def stem? (name : List UInt8) : Option (List UInt8) :=
  if programEnding.isSuffixOf name && programEnding.length < name.length then
    some (name.take (name.length - programEnding.length))
  else none

/-- A program in a directory that was named on the command line. -/
structure Program where
  directory : String
  /-- Its name without the ending. -/
  stem : List UInt8
deriving DecidableEq

namespace Program

/-- The name of the file. -/
def name (x : Program) : List UInt8 :=
  x.stem ++ programEnding

/-- The path of the file. -/
def path (x : Program) : Path :=
  pathIn (.ofText x.directory) x.name

/-- The path of the golden file: that of the program, with its ending replaced.
    If the stem is a lone point, what is left when the ending is cut off leads
    up, out of the directory, and takes no new ending. -/
def golden (x : Program) : Path :=
  pathIn (.ofText x.directory)
    (if x.stem = [point] then [point, point] else x.stem ++ goldenEnding)

/-- The transcript of the program with this text. -/
def transcript (fuel : Nat) (x : Program) (text : String) : String :=
  Golden.transcript fuel ⟨Text.lossy x.name, text, 0⟩

end Program

variable {m : Type → Type} [Monad m] [Console m]

/-- A line about something with a name. -/
def remark (name text : String) : m Unit :=
  Console.complain (name ++ ": " ++ text ++ "\n")

/-- Blesses a program with the transcript. -/
def bless (x : Program) (actual : String) : m Bool := do
  match ← Console.writeText x.golden actual with
  | .ok () => return true
  | .error f => do
    remark (Text.lossy x.golden) f.message
    return false

/-- Whether the transcript is the known one. -/
def compare (x : Program) (actual : String) : m Bool := do
  match ← Console.readText x.golden with
  | .ok expected =>
    if expected = actual then do
      remark (Text.lossy x.path) "ok"
      return true
    else do
      remark (Text.lossy x.path) ("output differs from " ++ Text.lossy x.golden)
      return false
  | .error f => do
    remark (Text.lossy x.golden) f.message
    return false

/-- Tests or blesses a program. -/
def replay (fuel : Nat) (blessing : Bool) (x : Program) : m Bool := do
  match ← Console.readText x.path with
  | .error f => do
    remark (Text.lossy x.path) f.message
    return false
  | .ok text =>
    let actual := x.transcript fuel text
    if blessing then bless x actual else compare x actual

/-- Tests or blesses programs, and counts those that fail. -/
def replayAll (fuel : Nat) (blessing : Bool) : List Program → m Nat
  | [] => return 0
  | x :: rest => do
    let passed ← replay fuel blessing x
    let failed ← replayAll fuel blessing rest
    return if passed then failed else failed + 1

/-- The programs among what is in a directory. -/
def programs (directory : String) (names : List FileName) : List Program :=
  names.filterMap fun name => (stem? name.bytes).map fun stem => ⟨directory, stem⟩

/-- Tests or blesses a directory. -/
def testDirectory (fuel : Nat) (blessing : Bool) (directory : String) : m Bool := do
  match ← Console.names (.ofText directory) with
  | .error f => do
    remark directory f.message
    return false
  | .ok names => do
    let found := programs directory names
    let failed ← replayAll fuel blessing found
    remark directory (toString found.length ++ " program(s), " ++ toString failed ++ " failed")
    return failed == 0

/-- Tests or blesses directories, all of them even if one fails. -/
def test (fuel : Nat) (blessing : Bool) : List String → m Bool
  | [] => return true
  | directory :: rest => do
    let passed ← testDirectory fuel blessing directory
    let others ← test fuel blessing rest
    return passed && others

end Golden

end Kode
