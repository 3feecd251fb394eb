/-!
Files: what a program that reads one file and writes another needs of them, and a tree of files as
a value that answers like the system does.
-/

namespace ActorAsm.CommandLine

/-- What became of a text that was to be written, with the reason if it was not. -/
inductive Written where
  | done
  | notOpened (reason : String)
  | notWritten (reason : String)
  deriving DecidableEq

/-- Reading a whole text, or the reason why it cannot be read, and replacing a file by a text. -/
structure FileSystem (m : Type → Type) where
  read : String → m (Except String String)
  write : String → String → m Written

/-- The reason why bytes are no text. -/
def notUtf8 : String := "stream did not contain valid UTF-8"

/-- Why the system refuses to open, read or write a file. -/
inductive FileError where
  | notFound
  | notDirectory
  | isDirectory
  | noSpace
  | nameTooLong
  deriving DecidableEq

def FileError.reason : FileError → String
  | .notFound => "No such file or directory (os error 2)"
  | .notDirectory => "Not a directory (os error 20)"
  | .isDirectory => "Is a directory (os error 21)"
  | .noSpace => "No space left on device (os error 28)"
  | .nameTooLong => "File name too long (os error 36)"

/-- What a path can lead to. A sink takes what is written to it and keeps nothing, or has no space
for anything. -/
inductive Entry where
  | directory
  | file (bytes : ByteArray)
  | sink (full : Bool)

/-- Entries by their parts from the root. A directory is there as soon as something is in it. -/
structure FileTree where
  workingDirectory : List String
  entries : List (List String × Entry)

namespace FileTree

def isParent (place : List String) (entry : List String × Entry) : Bool :=
  place.isPrefixOf entry.1 && place.length < entry.1.length

/-- What is at a place. -/
def entry? (t : FileTree) (place : List String) : Option Entry :=
  match t.entries.lookup place with
  | some entry => some entry
  | none =>
    if place = [] ∨ place = t.workingDirectory ∨ t.entries.any (isParent place) then
      some .directory
    else none

/-- Put an entry at a place, in the stead of what is there. -/
def put (t : FileTree) (place : List String) (entry : Entry) : FileTree :=
  { t with entries := t.entries.filter (·.1 ≠ place) ++ [(place, entry)] }

/-- Only directories can be passed through. -/
def enter (t : FileTree) (place : List String) : Except FileError Unit :=
  match t.entry? place with
  | none => .error .notFound
  | some .directory => .ok ()
  | some _ => .error .notDirectory

/-- Follow the parts of a path. What the last of them leads to need not be there. -/
def follow (t : FileTree) (place : List String) : List String → Except FileError (List String)
  | [] => .ok place
  | part :: parts => do
    t.enter place
    if part = "." then t.follow place parts
    else if part = ".." then t.follow place.dropLast parts
    else if 255 < part.utf8ByteSize then .error .nameTooLong
    else t.follow (place ++ [part]) parts

/-- What stands between the slashes of a path. -/
def split : List Char → List (List Char)
  | [] => [[]]
  | c :: cs =>
    if c = '/' then [] :: split cs
    else
      match split cs with
      | [] => [[c]]
      | part :: parts => (c :: part) :: parts

/-- The parts of a path. Slashes in a row count as one. -/
def parts (path : String) : List String :=
  ((split path.toList).filter (· ≠ [])).map String.ofList

/-- A path from the root begins with a slash. -/
def isAbsolute (path : String) : Bool := path.toList.head? = some '/'

/-- A name that ends in a slash can only be that of a directory. -/
def namesDirectory (path : String) : Bool := path.toList.getLast? = some '/'

/-- The place that the leading parts of a path lead to, from where the path starts. -/
def followFrom (t : FileTree) (path : String) (leading : List String) :
    Except FileError (List String) :=
  if path = "" then .error .notFound
  else if 4095 < path.utf8ByteSize then .error .nameTooLong
  else t.follow (if isAbsolute path then [] else t.workingDirectory) leading

/-- The place that a path leads to. -/
def locate (t : FileTree) (path : String) : Except FileError (List String) :=
  t.followFrom path (parts path)

/-- Enter the directory that has the last part of a path in it. -/
def enterParent (t : FileTree) (path : String) : Except FileError Unit := do
  t.enter (← t.followFrom path (parts path).dropLast)

/-- The bytes that can be read at a path. -/
def readBytes (t : FileTree) (path : String) : Except FileError ByteArray := do
  match t.entry? (← t.locate path) with
  | none => .error .notFound
  | some .directory => .error .isDirectory
  | some (.file bytes) => if namesDirectory path then .error .notDirectory else .ok bytes
  | some (.sink _) => if namesDirectory path then .error .notDirectory else .ok ByteArray.empty

/-- The text at a path. -/
def readText (t : FileTree) (path : String) : Except String String :=
  match t.readBytes path with
  | .error e => .error e.reason
  | .ok bytes =>
    match String.fromUTF8? bytes with
    | some text => .ok text
    | none => .error notUtf8

/-- Open a path for writing: the place, and what is there, or else a new file. Nothing that names a
directory can be written, so its last part is not looked up. -/
def openForWriting (t : FileTree) (path : String) : Except FileError (List String × Entry) := do
  if namesDirectory path then
    t.enterParent path
    .error .isDirectory
  else
    let place ← t.locate path
    match t.entry? place with
    | some .directory => .error .isDirectory
    | some entry => .ok (place, entry)
    | none => .ok (place, .file ByteArray.empty)

/-- Replace what is at a path by a text. -/
def writeText (t : FileTree) (path text : String) : Written × FileTree :=
  match t.openForWriting path with
  | .error e => (.notOpened e.reason, t)
  | .ok (_, .sink true) => (.notWritten FileError.noSpace.reason, t)
  | .ok (place, .file _) => (.done, t.put place (.file text.toUTF8))
  | .ok _ => (.done, t)

/-- The tree as a file system. -/
def system : FileSystem (StateM FileTree) where
  read path := do return (← get).readText path
  write path text := modifyGet (·.writeText path text)

end FileTree

end ActorAsm.CommandLine
