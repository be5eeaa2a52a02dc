import Kode.Input
import Kode.Path

/-!
# Disks

A disk holds files and directories, each at its place below the root. A path is
walked step by step (`Disk.locate`), from the root or from the working directory.
Every step has to start in a directory that one may go through.

A path can lead to a place that it does not spell. A symbolic link is replaced by
the path that it holds (`Entry.link`), and what is at a place may have more names
in other directories (`Entry.same`). So two paths can lead to one file.

Not everything can be done with everything (`Rights`), and not every file holds
what is written into it (`File.keeps`). Otherwise a file holds what was written
into it last: nobody else uses the disk.

Every directory that something is in exists, whether it is listed or not, and so does
the working directory.
-/

namespace Kode

/-- Why a file or directory cannot be read or written. -/
inductive DiskFault
  | notFound
  | denied
  | notDirectory
  | isDirectory
  | nameTooLong
  | tooManyLinks
  /-- The bytes of a file are not text. -/
  | invalidText
  | other (reason : String)
deriving DecidableEq, Repr

/-- The message for people. -/
def DiskFault.message : DiskFault → String
  | notFound => "No such file or directory (os error 2)"
  | denied => "Permission denied (os error 13)"
  | notDirectory => "Not a directory (os error 20)"
  | isDirectory => "Is a directory (os error 21)"
  | nameTooLong => "File name too long (os error 36)"
  | tooManyLinks => "Too many levels of symbolic links (os error 40)"
  | invalidText => Answer.invalidText
  | other reason => reason

/-- What can be done with a file or directory, and what is in the way of the rest. -/
structure Rights where
  /-- To read the file, or to list the directory. -/
  read : Except DiskFault Unit
  /-- To write the file, or to make files in the directory. -/
  write : Except DiskFault Unit
  /-- To go through the directory. -/
  pass : Except DiskFault Unit

/-- Nothing is in the way. -/
def Rights.all : Rights :=
  ⟨.ok (), .ok (), .ok ()⟩

/-- A file. -/
structure File where
  content : ByteArray
  rights : Rights := .all
  /-- Whether the file holds what is written into it. That of a device need not. -/
  keeps : Bool := true

/-- The file after something has been written into it. -/
def File.put (f : File) (content : ByteArray) : File :=
  { f with content := if f.keeps then content else f.content }

/-- What is found at a place. -/
inductive Entry
  | file (f : File)
  | directory (rights : Rights)
  /-- What is at the other place is here as well: this is one more name of it. -/
  | same (place : Place)
  /-- A symbolic link: the path is taken in its stead. -/
  | link (path : Path)

/-- Where a step leads to. -/
inductive Way
  | place (p : Place)
  /-- The path of a symbolic link has to be taken first. -/
  | link (path : Path)

/-- Files and directories, as they are seen from a working directory. -/
structure Disk where
  /-- The working directory. -/
  here : Place
  entries : List (Place × Entry)
  /-- What can be done with files that are made. -/
  fresh : Rights := .all

namespace Disk

/-- The disk with a working directory and entries at the given paths, all of them
    from the root. -/
def ofPaths (here : String) (entries : List (String × Entry)) : Disk where
  here := (Path.ofText here).place
  entries := entries.map fun e => ((Path.ofText e.1).place, e.2)

/-! ## Places -/

/-- The places at which something is known to be. -/
def places (d : Disk) : List Place :=
  d.here :: d.entries.map Prod.fst

/-- Whether the place has to be that of a directory, as something is below it. -/
def isAbove (d : Disk) (p : Place) : Bool :=
  p.isPrefixOf d.here || d.entries.any fun e => p.isPrefixOf e.1 && p ≠ e.1

/-- What is found at a place. -/
def get? (d : Disk) (p : Place) : Option Entry :=
  match d.entries.lookup p with
  | some (.directory rights) => some (.directory rights)
  | listed => if d.isAbove p then some (.directory .all) else listed

/-- The rights to the directory at a place. -/
def directory (d : Disk) (p : Place) : Except DiskFault Rights :=
  match d.get? p with
  | some (.directory rights) => .ok rights
  | some _ => .error .notDirectory
  | none => .error .notFound

/-! ## Paths -/

/-- The number of bytes that a path can have. -/
def maxPath : Nat := 4095

/-- The number of bytes that a name can have. -/
def maxName : Nat := 255

/-- The number of symbolic links that are followed on the way of one path. -/
def maxLinks : Nat := 40

/-- Where the steps of a path are taken from. -/
def start (base : Place) (path : Path) : Except DiskFault Place :=
  if path = [] then .error .notFound
  else if maxPath < path.length then .error .nameTooLong
  else .ok (if path.isAbsolute then [] else base)

/-- Takes one step from a place. -/
def step (d : Disk) (p : Place) : Path.Step → Except DiskFault Way
  | .blank => do
    let _ ← d.directory p
    return .place p
  | .stay => do
    (← d.directory p).pass
    return .place p
  | .up => do
    (← d.directory p).pass
    return .place p.dropLast
  | .into name => do
    (← d.directory p).pass
    if maxName < name.bytes.length then .error .nameTooLong
    else
      match d.get? (p ++ [name]) with
      | some (.link path) => return .link path
      | some (.same q) => return .place q
      | _ => return .place (p ++ [name])

/-- Takes steps from a place. From a symbolic link on it is up to `follow`, which is
    given where the link is, its path, and the steps that are left. -/
def advance (d : Disk) (follow : Place → Path → List Path.Step → Except DiskFault Place) :
    Place → List Path.Step → Except DiskFault Place
  | p, [] => .ok p
  | p, s :: rest => do
    match ← d.step p s with
    | .place q => advance d follow q rest
    | .link path => follow p path rest

/-- Takes steps from a place, and follows so many symbolic links. -/
def walk (d : Disk) : Nat → Place → List Path.Step → Except DiskFault Place
  | 0 => d.advance fun _ _ _ => .error .tooManyLinks
  | n + 1 => d.advance fun p path rest => do d.walk n (← start p path) (path.steps ++ rest)

/-- Where the path leads to. Nothing need be there, if it could be made there. -/
def locate (d : Disk) (path : Path) : Except DiskFault Place := do
  d.walk maxLinks (← start d.here path) path.steps

/-! ## Reading -/

/-- The content of the file at the path. -/
def read (d : Disk) (path : Path) : Except DiskFault ByteArray := do
  match d.get? (← d.locate path) with
  | some (.file f) => do
    f.rights.read
    return f.content
  | some (.directory rights) => do
    rights.read
    .error .isDirectory
  | _ => .error .notFound

/-- The content of a file as text. -/
def decode (content : ByteArray) : Except DiskFault String :=
  match String.fromUTF8? content with
  | some text => .ok text
  | none => .error .invalidText

/-- The text of the file at the path. -/
def readText (d : Disk) (path : Path) : Except DiskFault String := do
  decode (← d.read path)

/-- The name in the directory under which the place is found, if it is below that
    directory. -/
def nameIn? (directory place : Place) : Option FileName :=
  (directory.isPrefixOf? place).bind List.head?

/-- The names of all that is in a directory, each of them once. -/
def namesAt (d : Disk) (p : Place) : List FileName :=
  (d.places.filterMap (nameIn? p)).eraseDups

/-- The names of all that is in the directory at the path, in the order of their
    bytes. -/
def names (d : Disk) (path : Path) : Except DiskFault (List FileName) := do
  let p ← d.locate path
  (← d.directory p).read
  return (d.namesAt p).mergeSort FileName.le

/-! ## Writing -/

/-- Puts a file at a place. -/
def set (d : Disk) (p : Place) (f : File) : Disk :=
  { d with entries := (p, .file f) :: d.entries.filter fun e => e.1 ≠ p }

/-- Writes the file at the path, or makes one if there is none. -/
def write (d : Disk) (path : Path) (content : ByteArray) : Except DiskFault Disk := do
  let p ← d.locate path
  match d.get? p with
  | some (.file f) => do
    f.rights.write
    return d.set p (f.put content)
  | some _ => .error .isDirectory
  | none => do
    (← d.directory p.dropLast).write
    return d.set p { content, rights := d.fresh }

end Disk

end Kode
