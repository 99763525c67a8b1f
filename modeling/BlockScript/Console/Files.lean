import BlockScript.Error

/-!
# Files by their paths

A tree of directories, a place to stand in it, and the text of the file that a path leads to from
there. A path is followed name by name, and the first name that leads nowhere tells why.

* `Entry.follow`: where names lead, starting in a directory or at a file;
* `Place.read`: the text of the file at a path.
-/

namespace BlockScript.Console

/-- How files are read. -/
abbrev Files := String → Except FileError String

/-- What a name can stand for. -/
inductive Entry
  | file (text : String)
  | directory (entries : List (String × Entry))

/-- The longest name, in bytes. -/
def maxNameSize : Nat := 255

/-- The longest path, in bytes. -/
def maxPathSize : Nat := 4095

/-- Where names lead, one after the other. No name leads on from a file, not even one that means the
    directory itself (nothing, or a point). Two points lead to the directory above; above the
    outermost one there is only itself. -/
def Entry.follow (here : Entry) (above : List Entry) : List String → Except FileError Entry
  | [] => .ok here
  | name :: rest =>
    match here with
    | .file _ => .error .notDirectory
    | .directory entries =>
      if name = "" ∨ name = "." then here.follow above rest
      else if name = ".." then (above.headD here).follow above.tail rest
      else if maxNameSize < name.utf8ByteSize then .error .nameTooLong
      else
        match entries.lookup name with
        | some entry => entry.follow (here :: above) rest
        | none => .error .notFound

/-- A directory to stand in, and those above it, the nearest first. -/
structure Place where
  here : Entry
  above : List Entry := []

/-- Where a path leads; one that starts with a stroke starts in the outermost directory. -/
def Place.find (p : Place) (path : String) : Except FileError Entry :=
  let names := path.splitOn "/"
  if path.isEmpty then .error .notFound
  else if maxPathSize < path.utf8ByteSize then .error .nameTooLong
  else if path.startsWith "/" then (p.above.getLastD p.here).follow [] names
  else p.here.follow p.above names

/-- The text of the file at a path. -/
def Place.read (p : Place) : Files := fun path =>
  match p.find path with
  | .ok (.file text) => .ok text
  | .ok (.directory _) => .error .isDirectory
  | .error e => .error e

end BlockScript.Console
