import Kode.Disk
import Kode.Statement.Evaluate

/-!
# Consoles

What the commands need of the system that they run on: to read and write
files, to print and to complain, and to run a program that reads lines while it
runs. `Console` lists it, and the commands are written against that list.

`World` is a console without a system. Its files are a `Disk`, its input is
given in advance, and what was printed is kept. It says what the commands do.
-/

namespace Kode

/-- The means of a command. -/
class Console (m : Type → Type) where
  /-- The text of a file. -/
  readText : Path → m (Except DiskFault String)
  /-- The names of all that is in a directory, in order. -/
  names : Path → m (Except DiskFault (List FileName))
  /-- Writes a file. -/
  writeText : Path → String → m (Except DiskFault Unit)
  /-- Puts out a result. -/
  print : String → m Unit
  /-- Puts out what is not a result: an error, or how the work goes. -/
  complain : String → m Unit
  /-- Runs a program, which takes its input from the console and prints. Each
      loop may take the given number of rounds. If it is asked for, every
      statement is traced in a complaint. The result says why the program
      stopped, if it did not come to its end. -/
  execute : Nat → Bool → Block → m (Option Stop)

namespace Outcome

/-- The state that a run leaves. -/
def state : Outcome → State
  | .ok _ st => st
  | .error _ st => st

/-- Why the run stopped before its end, if it did. -/
def stop? : Outcome → Option Stop
  | .ok _ _ => none
  | .error stop _ => some stop

end Outcome

/-- The state that a program starts in, traced or not. -/
def State.start (traced : Bool) (answers : List Answer) : State :=
  { State.initial answers with trace := if traced then some "" else none }

/-- A console that is all data. -/
structure World where
  disk : Disk
  /-- The input that nobody has read yet. -/
  answers : List Answer
  printed : String
  complaints : String

namespace World

/-- The console before anything was done. -/
def ofDisk (disk : Disk) (answers : List Answer) : World :=
  ⟨disk, answers, "", ""⟩

/-- Runs a program. -/
def execute (fuel : Nat) (traced : Bool) (b : Block) (w : World) : Option Stop × World :=
  let outcome := b.run fuel (.start traced w.answers)
  let st := Outcome.state outcome
  (Outcome.stop? outcome,
    { w with
      answers := st.answers
      printed := w.printed ++ st.output
      complaints := w.complaints ++ st.trace.getD "" })

/-- Writes a file, if that is possible. -/
def writeText (path : Path) (text : String) (w : World) : Except DiskFault Unit × World :=
  match w.disk.write path text.toUTF8 with
  | .ok disk => (.ok (), { w with disk := disk })
  | .error f => (.error f, w)

end World

instance : Console (StateM World) where
  readText path := fun w => (w.disk.readText path, w)
  names path := fun w => (w.disk.names path, w)
  writeText path text := World.writeText path text
  print text := modify fun w => { w with printed := w.printed ++ text }
  complain text := modify fun w => { w with complaints := w.complaints ++ text }
  execute fuel traced b := World.execute fuel traced b

end Kode
