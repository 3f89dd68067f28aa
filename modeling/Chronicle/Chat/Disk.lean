/-!
# Files

A disk holds directories and files, each at a place. A path leads to a place step by step: every step
has to start from a directory, `.` stays where it is, and `..` goes back up. Reading and writing fail
for the first reason that the way gives, and for no other reason: everything may be read and written,
and there is room for it. In particular a file that is there can be written over.
-/

namespace Chronicle

/-- What stands at a place of a disk. A file whose bytes are no text has none. -/
inductive Entry where
  | directory
  | file (text : Option String)
deriving DecidableEq, Repr

inductive DiskError where
  | missing | occupied | notDirectory | isDirectory | nameTooLong
  /-- A character that no path may hold. -/
  | badCharacter
  /-- A file without text. -/
  | noText
deriving DecidableEq, Repr

namespace DiskError

def code? : DiskError → Option Nat
  | missing => some 2
  | occupied => some 17
  | notDirectory => some 20
  | isDirectory => some 21
  | nameTooLong => some 36
  | badCharacter | noText => none

def reason : DiskError → String
  | missing => "No such file or directory"
  | occupied => "File exists"
  | notDirectory => "Not a directory"
  | isDirectory => "Is a directory"
  | nameTooLong => "File name too long"
  | badCharacter => "file name contained an unexpected NUL byte"
  | noText => "stream did not contain valid UTF-8"

def message (e : DiskError) : String := e.reason ++ e.code?.elim "" fun n => s!" (os error {n})"

end DiskError

/-- A place on a disk: the names on the way to it from the working directory, the last one first. The
way up from there is made of `..`, and the way from the root starts with `/`. -/
abbrev Place := List String

namespace Place

/-- The place above. Nothing is above the root. -/
def up : Place → Place
  | [] => [".."]
  | name :: rest => if name = "/" then ["/"] else if name = ".." then ".." :: name :: rest else rest

def go (p : Place) (name : String) : Place := if name = "." then p else if name = ".." then p.up else name :: p

def isFixed (p : Place) : Bool := p.all fun name => name = ".." || name = "/"

end Place

structure Disk where
  entries : List (Place × Entry)
deriving DecidableEq, Repr

namespace Disk

def empty : Disk := ⟨[]⟩

/-- What stands at a place. A name has up to 255 bytes. -/
def lookup (d : Disk) (p : Place) : Except DiskError Entry :=
  if p.isFixed then .ok .directory
  else if p.head?.any (255 < ·.utf8ByteSize) then .error .nameTooLong
  else (d.entries.lookup p).elim (.error .missing) .ok

def put (d : Disk) (p : Place) (e : Entry) : Disk := ⟨(p, e) :: d.entries.filter (·.1 ≠ p)⟩

def step (d : Disk) (p : Place) (name : String) : Except DiskError Place := do
  match ← d.lookup p with
  | .directory => return p.go name
  | .file _ => throw .notDirectory

/-- The steps of a path. The first one is `/` if the path starts at the root. -/
def steps (path : String) : List String :=
  (if path.toList.head? = some '/' then ["/"] else []) ++
    ((path.toList.splitOn '/').filter (!·.isEmpty)).map .ofList

def pathOf (way : List String) : String :=
  match way with
  | [] => "."
  | first :: rest => (if first = "/" then first else "") ++ "/".intercalate (if first = "/" then rest else way)

/-- Whether a path says by a slash at its end that it leads to a directory. -/
def endsInSlash (path : String) : Bool := path.toList.getLast? = some '/'

/-- The place where a path leads. A path has up to 4095 bytes. -/
def walk (d : Disk) (path : String) : Except DiskError Place :=
  if path.toList.contains '\x00' then .error .badCharacter
  else if path = "" then .error .missing
  else if 4095 < path.utf8ByteSize then .error .nameTooLong
  else (steps path).foldlM d.step []

/-- The text of the file where a path leads. -/
def read (d : Disk) (path : String) : Except DiskError String := do
  match ← d.lookup (← d.walk path) with
  | .directory => throw .isDirectory
  | .file text? => if endsInSlash path then throw .notDirectory else text?.elim (throw .noText) pure

/-- The disk with a text in the file where a path leads, which is made unless it is there. -/
def write (d : Disk) (path text : String) : Except DiskError Disk := do
  let p ← d.walk path
  if endsInSlash path then throw .isDirectory
  match d.lookup p with
  | .ok .directory => throw .isDirectory
  | .ok (.file _) | .error .missing => return d.put p (.file text)
  | .error e => throw e

/-- The steps of a path without those that stay where they are; a first one is kept. -/
def components (path : String) : List String :=
  match steps path with
  | [] => []
  | first :: rest => first :: rest.filter (· ≠ ".")

/-- Makes the directory where steps lead, the last one first, unless it is there. -/
def makeDirectory (d : Disk) (way : List String) : Except DiskError Disk := do
  let p ← way.reverse.foldlM d.step []
  match d.lookup p with
  | .ok .directory => return d
  | .ok (.file _) => throw .occupied
  | .error .missing => return d.put p .directory
  | .error e => throw e

/-- Makes the directory where steps lead, the last one first, after those above it that are missing.
If one cannot be made, those made before it stay. -/
def makeDirectories (d : Disk) : List String → Except DiskError Unit × Disk
  | [] => (.ok (), d)
  | name :: above =>
    match d.makeDirectory (name :: above) with
    | .ok d => (.ok (), d)
    | .error .missing =>
      match d.makeDirectories above with
      | (.error e, d) => (.error e, d)
      | (.ok (), d) =>
        match d.makeDirectory (name :: above) with
        | .ok d => (.ok (), d)
        | .error e => (.error e, d)
    | .error e => (.error e, d)

/-- Makes the directory in which the last component of a path stands. -/
def makeParent (d : Disk) (path : String) : Except DiskError Unit × Disk :=
  d.makeDirectories (components path).dropLast.reverse

/-- The last component of a path without its extension: what follows the last point, unless the
point is the first character. -/
def stem (path : String) : Option String :=
  (components path).getLast?.bind fun name =>
    if name = ".." ∨ name = "." ∨ name = "/" then none
    else
      match name.toList.reverse.dropWhile (· ≠ '.') with
      | _ :: c :: rest => some (.ofList (c :: rest).reverse)
      | _ => some name

end Disk

end Chronicle
