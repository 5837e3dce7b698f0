import ProjectHub.Edge.Sink
import ProjectHub.Files

/-!
# Records in files

The sink that keeps each record in one file of a directory. A key names the
file, so a key that could lead out of the directory, or hide in it, is refused
before anything is touched.
-/

namespace ProjectHub.Edge

/-- Whether a key may name a file. -/
def isFileKey (key : String) : Bool :=
  let cs := key.toList
  !cs.isEmpty && !cs.contains '/' && !cs.contains '\\' && cs.head? != some '.'

/-- The sink that keeps records in the files of a directory, which it creates when it is
missing. -/
def folderSink (directory : String) : Sink FileSystem where
  name := "file"
  put := fun key value fs =>
    if !isFileKey key then
      (fs, .refused (.permanent ("key '" ++ key ++ "' is not a valid file name")))
    else
      match FileSystem.createDirectories directory fs with
      | (fs, .error fault) =>
        (fs, .refused (.transient ("failed to create KV dir: " ++ fault.message)))
      | (fs, .ok ()) =>
        match FileSystem.writeFile (FileSystem.joined directory key) value fs with
        | (fs, .ok ()) => (fs, .accepted)
        | (fs, .error fault) =>
          (fs, .refused (.transient ("failed to write KV key " ++ key ++ ": " ++ fault.message)))

end ProjectHub.Edge
