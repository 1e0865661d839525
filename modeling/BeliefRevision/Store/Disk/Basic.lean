/-!
# Files

The files around a working directory as a value: what stands at which place. Only
whether a file is text matters here, so a file whose bytes are no text is kept
without them.

A path is followed part by part from the working directory, or from the root where
it begins with a slash. An empty part or a single dot stays in place, and two dots
lead to the directory above. The directories above the working directory exist, but
nothing is known to be in them.
-/

namespace BeliefRevision

/-- Why a file could not be read or written. -/
inductive FileError where
  | notFound
  | isDirectory
  | notDirectory
  /-- The path, or a name in it, is too long. -/
  | nameTooLong
  /-- The bytes of the file are no text. -/
  | notText
  /-- Another cause, in words. -/
  | other (cause : String)
deriving DecidableEq

/-- The error in words. -/
def FileError.message : FileError → String
  | .notFound => "entity not found"
  | .isDirectory => "is a directory"
  | .notDirectory => "not a directory"
  | .nameTooLong => "invalid filename"
  | .notText => "invalid data"
  | .other cause => cause

/-- Where a path begins. -/
inductive Origin where
  /-- So many levels above the working directory. -/
  | above (levels : Nat)
  | root
deriving DecidableEq

/-- A place among the directories, with the names which lead there, the last first. -/
structure Place where
  origin : Origin
  names : List String
deriving DecidableEq

namespace Place

/-- The working directory. -/
def here : Place := ⟨.above 0, []⟩

/-- The root of all directories. -/
def root : Place := ⟨.root, []⟩

/-- The place of that name in the directory at the place. -/
def child (place : Place) (name : String) : Place := ⟨place.origin, name :: place.names⟩

/-- The directory which holds the place. The root holds itself. -/
def parent : Place → Place
  | ⟨origin, _ :: names⟩ => ⟨origin, names⟩
  | ⟨.above levels, []⟩ => ⟨.above (levels + 1), []⟩
  | ⟨.root, []⟩ => root

end Place

/-- What stands at a place. -/
inductive Entry where
  | file (text : String)
  | binary
  | directory
deriving DecidableEq

/-- What stands at which place. Where a path begins there is always a directory. -/
structure Disk where
  entries : List (Place × Entry)
deriving DecidableEq

namespace Disk

/-- The disk whose working directory has the entries, and nothing else. -/
def ofEntries (entries : List (String × Entry)) : Disk :=
  ⟨entries.map fun (name, entry) => (Place.here.child name, entry)⟩

/-- How many bytes a name may have. -/
def nameLimit : Nat := 255

/-- How many bytes a path may have. -/
def pathLimit : Nat := 4095

/-- What stands at the place. -/
def entry (disk : Disk) (place : Place) : Except FileError Entry :=
  match place.names with
  | [] => .ok .directory
  | name :: _ =>
    if name.utf8ByteSize > nameLimit then .error .nameTooLong
    else
      match disk.entries.lookup place with
      | some entry => .ok entry
      | none => .error .notFound

/-- Puts an entry at the place, instead of what stands there. -/
def put (disk : Disk) (place : Place) (entry : Entry) : Disk :=
  ⟨(place, entry) :: disk.entries.filter (·.1 != place)⟩

/-- Where a path leads. -/
inductive Target where
  /-- A directory, as the path ends in a part which only moves among directories. -/
  | directory
  /-- A place named by the last part, and whether slashes follow the name. -/
  | named (place : Place) (slashed : Bool)
deriving DecidableEq

/-- Follows the parts of a path from a directory. What the last name stands for is
left open, while each name before it must be that of a directory. -/
def follow (disk : Disk) (place : Place) : List String → Except FileError Target
  | [] => .ok .directory
  | part :: parts =>
    if part = "" || part = "." then disk.follow place parts
    else if part = ".." then disk.follow place.parent parts
    else if parts.all (· = "") then .ok (.named (place.child part) !parts.isEmpty)
    else
      match disk.entry (place.child part) with
      | .ok .directory => disk.follow (place.child part) parts
      | .ok _ => .error .notDirectory
      | .error cause => .error cause

/-- Finds where the path leads. -/
def locate (disk : Disk) (path : String) : Except FileError Target :=
  if path.isEmpty then .error .notFound
  else if path.utf8ByteSize > pathLimit then .error .nameTooLong
  else
    match path.splitOn "/" with
    | "" :: parts => disk.follow .root parts
    | parts => disk.follow .here parts

/-- The text of the file at the path. Slashes after the name ask for a directory. -/
def read (disk : Disk) (path : String) : Except FileError String := do
  match ← disk.locate path with
  | .directory => .error .isDirectory
  | .named place slashed =>
    match ← disk.entry place with
    | .directory => .error .isDirectory
    | .file text => if slashed then .error .notDirectory else .ok text
    | .binary => .error (if slashed then .notDirectory else .notText)

/-- The disk with the text as the whole contents of the file at the path. A file
which does not exist is made. -/
def write (disk : Disk) (path text : String) : Except FileError Disk := do
  match ← disk.locate path with
  | .directory => .error .isDirectory
  | .named _ true => .error .isDirectory
  | .named place false =>
    match disk.entry place with
    | .ok .directory => .error .isDirectory
    | .ok _ => .ok (disk.put place (.file text))
    | .error .notFound => .ok (disk.put place (.file text))
    | .error cause => .error cause

end Disk
end BeliefRevision
