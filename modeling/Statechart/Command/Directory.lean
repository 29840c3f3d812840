import Statechart.Compile

/-!
# A directory of files

The files that a run of the compiler can see, as a value: places seen from the current directory,
and contents in bytes.

* `Path` — a path as it is written: names, and where it starts.
* `Directory.walk` — follow names from directory to directory.
* `Directory.read` — the text of a file, or why there is none.
* `Directory.write` — the directory with a file replaced or added, or why that cannot be.

A path is followed name by name, and the first name that does not lead on decides what is wrong
with it.  Of the directories above the current one nothing is known but that they exist.
-/

namespace Statechart

/-! ## Paths -/

/-- A path as it is written. -/
structure Path where
  /-- The path starts at the root of the system, and otherwise in the current directory. -/
  fromRoot : Bool
  /-- The names between the slashes, without empty ones. -/
  names : List String
  /-- A slash at the end says that a directory is meant. -/
  slashAtEnd : Bool
deriving DecidableEq

namespace Path

/-- How many bytes a name may have. -/
def nameLimit : Nat := 255

/-- How many bytes a path may have. -/
def lengthLimit : Nat := 4095

/-- The characters of a path, cut at its slashes. -/
def split : List Char → List (List Char)
  | [] => [[]]
  | c :: cs =>
    if c = '/' then [] :: split cs
    else
      match split cs with
      | [] => [[c]]
      | part :: parts => (c :: part) :: parts

/-- The names in a text, empty ones left out. -/
def namesIn (text : String) : List String :=
  ((split text.toList).map String.ofList).filter (· != "")

/-- The path that a text stands for. -/
def ofString (text : String) : Except FileError Path :=
  if text.toList.contains '\x00' then .error .invalidName
  else if text = "" then .error .missing
  else if text.utf8ByteSize > lengthLimit then .error .nameTooLong
  else .ok ⟨text.startsWith "/", namesIn text, text.endsWith "/"⟩

end Path

/-! ## Places -/

/-- A place, by the names that lead to it.  Two dots occur in front only and lead upwards; a
single slash in front is the root. -/
abbrev Place := List String

namespace Place

/-- The current directory. -/
def current : Place := []

/-- The root of the system. -/
def root : Place := ["/"]

/-- The place above. -/
def above (place : Place) : Place :=
  if place = root then root
  else if place.all (· = "..") then place ++ [".."]
  else place.dropLast

/-- The place that a name leads to. -/
def next (place : Place) (name : String) : Except FileError Place :=
  if name = "." then .ok place
  else if name = ".." then .ok place.above
  else if name.utf8ByteSize > Path.nameLimit then .error .nameTooLong
  else .ok (place ++ [name])

end Place

/-- The place where a path starts. -/
def Path.start (path : Path) : Place := if path.fromRoot then .root else .current

/-! ## Files -/

/-- Files by place. -/
structure Directory where
  files : List (Place × ByteArray) := []

namespace Directory

/-- The contents of the file at a place. -/
def file? (d : Directory) (place : Place) : Option ByteArray :=
  (d.files.find? fun (other, _) => other = place).map Prod.snd

/-- Whether a place is a directory: the root, the current one, one above it, or one on the way
to a file. -/
def isDirectory (d : Directory) (place : Place) : Bool :=
  place = .root || place.all (· = "..") ||
    d.files.any fun (other, _) => place.length < other.length && place.isPrefixOf other

/-- Follow one name to a directory. -/
def enter (d : Directory) (place : Place) (name : String) : Except FileError Place := do
  let next ← place.next name
  if d.isDirectory next then return next
  else if (d.file? next).isSome then throw .notDirectory
  else throw .missing

/-- Follow names from directory to directory. -/
def walk (d : Directory) (place : Place) : List String → Except FileError Place
  | [] => .ok place
  | name :: names => do
    let next ← d.enter place name
    d.walk next names

/-- The directory that a path leads to with all its names but the last, and the last name.  The
path of the root has no names. -/
def approach (d : Directory) (path : Path) : Except FileError (Place × String) := do
  let place ← d.walk path.start path.names.dropLast
  return (place, path.names.getLastD ".")

/-- The text of a file. -/
def read (d : Directory) (text : String) : Except FileError String := do
  let path ← Path.ofString text
  let (folder, name) ← d.approach path
  let place ← folder.next name
  if d.isDirectory place then throw .isDirectory
  match d.file? place with
  | none => throw .missing
  | some bytes =>
    if path.slashAtEnd then throw .notDirectory
    match String.fromUTF8? bytes with
    | some content => return content
    | none => throw .notText

/-- The directory with contents at a place, new or not. -/
def put (d : Directory) (place : Place) (contents : ByteArray) : Directory :=
  if (d.file? place).isSome then
    ⟨d.files.map fun (other, bytes) => (other, if other = place then contents else bytes)⟩
  else ⟨d.files ++ [(place, contents)]⟩

/-- The directory with a text in a file, new or not.  A slash at the end of the path is refused
before its last name is looked at. -/
def write (d : Directory) (text content : String) : Except FileError Directory := do
  let path ← Path.ofString text
  let (folder, name) ← d.approach path
  if path.slashAtEnd then throw .isDirectory
  let place ← folder.next name
  if d.isDirectory place then throw .isDirectory
  return d.put place content.toUTF8

/-- The directory with the given files, by the text of their paths. -/
def ofFiles (files : List (String × ByteArray)) : Directory :=
  ⟨files.map fun (text, bytes) => ((Path.namesIn text).filter (· != "."), bytes)⟩

end Directory

end Statechart
