import Kode.CommandLine

/-!
# The program

The command line on the console of the process. Programs are evaluated as a
whole, from the lines that have been read so far. One that runs out of lines is
started again with one line more, until the input ends; what it has written
before is not printed twice. So output is seen before the input that it asks
for.

The system takes paths as texts here, so that only files whose names are texts
can be read and written.
-/

namespace Kode

namespace Terminal

/-- Whether the error code of the system is this number. It may come with either sign. -/
def isCode (code n : UInt32) : Bool :=
  code = n || code = 0 - n

/-- What an error of the system says about a file. -/
def faultOf : IO.Error → DiskFault
  | .noFileOrDirectory .. => .notFound
  | .permissionDenied .. => .denied
  | .inappropriateType _ code _ => if isCode code 21 then .isDirectory else .notDirectory
  | .invalidArgument file code details =>
    if isCode code 36 then .nameTooLong
    else if isCode code 40 then .tooManyLinks
    else .other (toString (IO.Error.invalidArgument file code details))
  | e => .other (toString e)

/-- The result of an action, or what an error says about a file. -/
def attempt {α : Type} (action : IO α) : IO (Except DiskFault α) := do
  match ← action.toBaseIO with
  | .ok a => return .ok a
  | .error e => return .error (faultOf e)

/-- The names of all that is in a directory. -/
def names (path : Path) : IO (Except DiskFault (List FileName)) := do
  if path = [] then return .error .notFound
  let here ← IO.currentDir
  attempt do
    let entries ← (here / Text.lossy path).readDir
    let found := entries.toList.filterMap fun e => (Path.Step.ofPiece (Text.bytes e.fileName)).name?
    return found.mergeSort FileName.le

/-- The text of a file. -/
def readText (path : Path) : IO (Except DiskFault String) := do
  return (← attempt (IO.FS.readBinFile (Text.lossy path))).bind Disk.decode

/-- Writes a file. -/
def writeText (path : Path) (text : String) : IO (Except DiskFault Unit) :=
  attempt (IO.FS.writeFile (Text.lossy path) text)

/-- The bytes of the next line of input, together with its line feed, behind
    those given. -/
partial def readLine (line : List UInt8) : IO (List UInt8) := do
  match (← (← IO.getStdin).read 1).toList with
  | [] => return line
  | b :: _ => if b = 10 then return line ++ [b] else readLine (line ++ [b])

/-- What was added to a text that began with `n` characters. -/
def added (n : Nat) (text : String) : String :=
  String.ofList (text.toList.drop n)

/-- Whether the run has stopped for want of a line. -/
def wantsLine : Outcome → Bool
  | .error (.failed e) _ => e.fault = .inputExhausted
  | _ => false

/-- Runs a program with the answers that are known, of which the first pieces of
    output and trace have already been seen. -/
partial def execute (fuel : Nat) (traced : Bool) (b : Block) (known : List Answer)
    (printed complained : Nat) : IO (Option Stop) := do
  let outcome := b.run fuel (.start traced known)
  let st := Outcome.state outcome
  let trace := st.trace.getD ""
  IO.print (added printed st.output)
  (← IO.getStdout).flush
  IO.eprint (added complained trace)
  if wantsLine outcome then
    match ← readLine [] with
    | [] => return Outcome.stop? outcome
    | line =>
      execute fuel traced b (known ++ [.ofLineBytes line]) st.output.length trace.length
  else return Outcome.stop? outcome

end Terminal

instance : Console IO where
  readText := Terminal.readText
  names := Terminal.names
  writeText := Terminal.writeText
  print text := IO.print text
  complain text := IO.eprint text
  execute fuel traced b := Terminal.execute fuel traced b [] 0 0

end Kode

/-- The command line of the process. -/
def main (arguments : List String) : IO UInt32 := do
  let exit : Kode.Exit ← Kode.CommandLine.perform Kode.ampleFuel arguments
  return exit.code.toUInt32
