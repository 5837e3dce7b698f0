import ProjectHub.NameMap.Basic
import ProjectHub.Text.Utf8

/-!
# Files

A file system of directories and files: what reading a file gives, making a
directory and those on the way to it, and writing a file into a directory. What
the system refuses is told in its own words.
-/

namespace ProjectHub

/-- What stands under a path. -/
inductive FileNode where
  | directory
  | file (content : List UInt8)
  deriving DecidableEq

/-- A file system: what stands under each path. A path here is the names from the root down,
joined by slashes, without `.` and `..`. -/
abbrev FileSystem := NameMap FileNode

/-- Why the file system refuses something. -/
inductive FileFault where
  | notFound
  | exists
  | notDirectory
  | isDirectory
  | nameTooLong
  | nulInName
  | notText
  deriving DecidableEq

/-- The wording of a refusal. -/
def FileFault.message : FileFault → String
  | .notFound => "No such file or directory (os error 2)"
  | .exists => "File exists (os error 17)"
  | .notDirectory => "Not a directory (os error 20)"
  | .isDirectory => "Is a directory (os error 21)"
  | .nameTooLong => "File name too long (os error 36)"
  | .nulInName => "file name contained an unexpected NUL byte"
  | .notText => "stream did not contain valid UTF-8"

namespace FileSystem

/-- The path of names below the root. -/
def pathOf (names : List String) : String :=
  "/".intercalate names

/-- The longest name in bytes. -/
def maxName : Nat := 255

/-- The longest path in bytes. -/
def maxPath : Nat := 4095

/-- The names of a path, an empty one for each slash too many. -/
def namesOf (path : String) : Except FileFault (List String) :=
  if path.isEmpty then .error .notFound
  else if path.toList.contains '\x00' then .error .nulInName
  else if maxPath < path.utf8ByteSize then .error .nameTooLong
  else .ok ((path.toList.splitOn '/').map String.ofList)

/-- The names of the path of a folder. The empty path is that of the folder one stands in. -/
def folderNames (path : String) : Except FileFault (List String) :=
  if path.isEmpty then .ok [] else namesOf path

/-- A path that goes on from a folder. One that starts at the root stays as it is. -/
def joined (folder path : String) : String :=
  if path.toList.head? = some '/' then path
  else
    match folder.toList.getLast? with
    | none => path
    | some '/' => folder ++ path
    | some _ => folder ++ "/" ++ path

/-- What stands under names from the root down; the root is a directory. -/
def nodeAt? (names : List String) (fs : FileSystem) : Option FileNode :=
  if names.isEmpty then some .directory else NameMap.get? fs (pathOf names)

/-- What names lead to from the place `above`, where `..` goes back, and the names of that
from the root down. -/
def follow (above : List String) : List String → FileSystem →
    Except FileFault (List String × FileNode)
  | [], _ => .ok (above, .directory)
  | name :: rest, fs =>
    if name = "" ∨ name = "." then follow above rest fs
    else if name = ".." then follow above.dropLast rest fs
    else if maxName < name.utf8ByteSize then .error .nameTooLong
    else
      match nodeAt? (above ++ [name]) fs with
      | none => .error .notFound
      | some .directory => follow (above ++ [name]) rest fs
      | some (.file content) =>
        if rest.isEmpty then .ok (above ++ [name], .file content) else .error .notDirectory

/-- What a path leads to. -/
def node (path : String) (fs : FileSystem) : Except FileFault FileNode := do
  return (← follow [] (← namesOf path) fs).2

/-- The directory that names lead to, as its names from the root down. -/
def directoryAt (names : List String) (fs : FileSystem) : Except FileFault (List String) := do
  match ← follow [] names fs with
  | (place, .directory) => return place
  | (_, .file _) => throw .notDirectory

/-- The text of a file. -/
def readText (path : String) (fs : FileSystem) : Except FileFault String := do
  match ← node path fs with
  | .directory => throw .isDirectory
  | .file content =>
    match Text.ofUtf8? content with
    | some text => return text
    | none => throw .notText

/-- Makes one directory, in a directory that is there. Names that end in `.` or `..` name a
directory that cannot be made. -/
def makeDirectory (names : List String) (fs : FileSystem) : Except FileFault FileSystem := do
  let names := names.filter fun name => name ≠ ""
  match names.getLast? with
  | none => throw .exists
  | some name =>
    let above ← directoryAt names.dropLast fs
    if name = "." ∨ name = ".." then throw .exists
    else if maxName < name.utf8ByteSize then throw .nameTooLong
    else if (nodeAt? (above ++ [name]) fs).isSome then throw .exists
    else return NameMap.insert fs (pathOf (above ++ [name])) .directory

/-- Whether names lead to a directory. -/
def isDirectory (names : List String) (fs : FileSystem) : Bool :=
  (directoryAt names fs).toBool

/-- What an attempt to make a directory comes to: a directory that is there is as good. -/
def settle (names : List String) (fs : FileSystem) : FileSystem × Except FileFault Unit :=
  match makeDirectory names fs with
  | .ok made => (made, .ok ())
  | .error fault => (fs, if isDirectory names fs then .ok () else .error fault)

/-- Makes a directory and, if something on the way to it is missing, first the directory
above it, whose names are given from the last one up. -/
def makeDirectories (names : List String) :
    List String → FileSystem → FileSystem × Except FileFault Unit
  | above, fs =>
    match makeDirectory names fs with
    | .error .notFound =>
      match above with
      | [] => settle names fs
      | last :: rest =>
        match makeDirectories (last :: rest).reverse rest fs with
        | (made, .ok ()) => settle names made
        | (made, .error fault) => (made, .error fault)
    | _ => settle names fs

/-- Makes the directory of a path and those on the way to it. A dot at the end names nothing
that could be made, so the directory before it has to be there. -/
def createDirectories (path : String) (fs : FileSystem) : FileSystem × Except FileFault Unit :=
  match folderNames path with
  | .error fault => (fs, .error fault)
  | .ok names =>
    let above := (names.filter fun name => name ≠ "" && name ≠ ".").dropLast
    makeDirectories names above.reverse fs

/-- Writes the file of a name in a directory, whose names from the root down are given. -/
def writeIn (above : List String) (name : String) (content : List UInt8) (fs : FileSystem) :
    FileSystem × Except FileFault Unit :=
  if maxName < name.utf8ByteSize then (fs, .error .nameTooLong)
  else
    match nodeAt? (above ++ [name]) fs with
    | some .directory => (fs, .error .isDirectory)
    | _ => (NameMap.insert fs (pathOf (above ++ [name])) (.file content), .ok ())

/-- Writes the file of a path, in place of any content before. What ends in a slash, `.` or `..`
names a directory. -/
def writeFile (path : String) (content : List UInt8) (fs : FileSystem) :
    FileSystem × Except FileFault Unit :=
  match namesOf path with
  | .error fault => (fs, .error fault)
  | .ok all =>
    let names := all.filter fun name => name ≠ ""
    match names.getLast? with
    | none => (fs, .error .isDirectory)
    | some name =>
      match directoryAt names.dropLast fs with
      | .error fault => (fs, .error fault)
      | .ok above =>
        if all.getLast? = some "" ∨ name = "." ∨ name = ".." then (fs, .error .isDirectory)
        else writeIn above name content fs

/-- What stands in a directory, by name; directories in it count as empty. Where there is no
directory, nothing does. -/
def contentsOf (path : String) (fs : FileSystem) : List (String × List UInt8) :=
  match namesOf path >>= fun names => directoryAt names fs with
  | .error _ => []
  | .ok above =>
    let front := (pathOf (above ++ [""])).toList
    fs.entries.filterMap fun (path, node) =>
      let cs := path.toList
      if front.isPrefixOf cs && !(cs.drop front.length).contains '/' then
        some (String.ofList (cs.drop front.length), match node with
          | .file content => content
          | .directory => [])
      else none

end FileSystem

end ProjectHub
