import CacheHierarchy.Files.Basic

/-!
# Files in memory

A folder holds files under their places, a place being the names of the directories on the way and
the name of the file. Directories are there as far as a file lies below them. A path leads from the
top of the folder to a place. It may lead out of the folder: what lies around the folder counts as
one directory that contains itself, and little is known of what is in it. Programs that run on a
folder are pure.
-/

namespace CacheHierarchy

structure Folder where
  files : List (List String × ByteArray) := []

inductive Found
  | file (content : ByteArray)
  | directory
  | nothing

namespace Folder

def nameLimit : Nat := 255

def pathLimit : Nat := 4095

/-- The place around the folder, in front of every place that is not in the folder. -/
def around : List String := [".."]

/-- The place holds an empty file, whatever is written to it. -/
def isNullDevice (place : List String) : Bool := place == around ++ ["dev", "null"]

/-- The names of directories that a system has at its top. -/
def systemDirectories : List String :=
  ["bin", "dev", "etc", "home", "lib", "proc", "root", "sys", "tmp", "usr", "var"]

/-- The place outside the folder is known to be a directory. -/
def isKnownDirectory (place : List String) : Bool :=
  place == around || systemDirectories.any fun name => place == around ++ [name]

def look (f : Folder) (place : List String) : Found :=
  match f.files.lookup place with
  | some content => .file content
  | none =>
    if isNullDevice place then .file .empty
    else if place.isEmpty || isKnownDirectory place || f.files.any (place.isPrefixOf ·.1) then
      .directory
    else .nothing

def above (here : List String) : List String :=
  if here.isEmpty ∨ here = around then around else here.dropLast

/-- The place that the parts of a path lead to from a directory. The last part may name something
that is not there. -/
def walk (f : Folder) (here : List String) : List String → Except FileError (List String)
  | [] => .ok here
  | name :: rest =>
    if name = "" ∨ name = "." then f.walk here rest
    else if name = ".." then f.walk (above here) rest
    else if nameLimit < name.utf8ByteSize then .error .nameTooLong
    else
      let there := here ++ [name]
      if rest.isEmpty then .ok there
      else match f.look there with
        | .directory => f.walk there rest
        | .file _ => .error .throughFile
        | .nothing => .error .absent

/-- The parts of a path, or why the path can lead nowhere. -/
def parts (path : String) : Except FileError (List String) :=
  if path.contains '\x00' then .error .invalidPath
  else if path.isEmpty then .error .absent
  else if pathLimit < path.utf8ByteSize then .error .nameTooLong
  else .ok (path.splitOn "/")

/-- The place that a path with some parts leads to. A path that starts with a slash starts outside
the folder. -/
def place (f : Folder) (parts : List String) : Except FileError (List String) :=
  f.walk (if parts.head? = some "" then around else []) parts

def read (f : Folder) (path : String) : Except FileError ByteArray := do
  match f.look (← f.place (← parts path)) with
  | .file content => .ok content
  | .directory => .error .directory
  | .nothing => .error .absent

/-- The place of the file that a path names for writing. A path that ends in a slash names a
directory and no file; only what stands in front of its last part has to be there. -/
def target (f : Folder) (path : String) : Except FileError (List String) := do
  let parts ← parts path
  if parts.getLast? = some "" then
    let named := (parts.reverse.dropWhile (· = "")).reverse
    let _ ← f.place (named.dropLast ++ ["."])
    .error .directory
  else f.place parts

/-- The folder with a new content for the file at a place. -/
def put (f : Folder) (place : List String) (content : ByteArray) : Folder :=
  { files := (f.files.filter fun (p, _) => p != place) ++ [(place, content)] }

/-- A file holds what was put there last. -/
theorem look_put (f : Folder) (place : List String) (content : ByteArray) :
    (f.put place content).look place = .file content := by
  have absent : (f.files.filter fun (p, _) => p != place).lookup place = none := by
    rw [List.lookup_eq_none_iff]
    intro entry h
    simp only [List.mem_filter, bne_iff_ne] at h
    simpa using Ne.symm h.2
  have found : (f.put place content).files.lookup place = some content := by
    simp [put, List.lookup_append, absent]
  simp [look, found]

/-- The folder with a new content for the file at a path. -/
def write (f : Folder) (path : String) (text : String) : Except FileError Folder := do
  let place ← f.target path
  match f.look place with
  | .directory => .error .directory
  | _ => .ok (if isNullDevice place then f else f.put place text.toUTF8)

/-- The folder with these texts under these paths. -/
def ofTexts (texts : List (String × String)) : Folder where
  files := texts.map fun (path, text) => (path.splitOn "/", text.toUTF8)

/-- The files of a folder that are not in an earlier one, each as its path and its text. -/
def createdSince (f earlier : Folder) : List (String × String) :=
  f.files.filterMap fun (place, content) =>
    if around.isPrefixOf place then none
    else match earlier.files.lookup place with
      | some _ => none
      | none => some ("/".intercalate place, (String.fromUTF8? content).getD "")

end Folder

/-- A program that runs on a folder. -/
instance : Files (StateM Folder) where
  read path := do return (← get).read path
  write path text := do
    match (← get).write path text with
    | .error e => return .error e
    | .ok f =>
      set f
      return .ok ()

end CacheHierarchy
