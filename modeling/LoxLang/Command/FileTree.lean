/-!
# Files and paths

A path is a list of names between slashes, walked name by name from the working directory, or from
the top of the tree if it starts with a slash.  Every name but the last has to lead to a directory,
and a slash at the end asks that the last one does too.  Opening a directory works; reading it does
not, so the two ways to fail are kept apart.
-/

namespace LoxLang

/-- Why the system refused: its text and its number. -/
structure SystemError where
  text : String
  code : Nat
  deriving DecidableEq, Repr

namespace SystemError

/-- Nothing has the name. -/
def absent : SystemError := ⟨"No such file or directory", 2⟩

/-- A name stands behind something that is no directory. -/
def notDirectory : SystemError := ⟨"Not a directory", 20⟩

/-- A directory has no bytes. -/
def isDirectory : SystemError := ⟨"Is a directory", 21⟩

/-- A name or a path has more bytes than the system takes. -/
def nameTooLong : SystemError := ⟨"File name too long", 36⟩

/-- The message about an error. -/
def message (e : SystemError) : String := e.text ++ " (os error " ++ toString e.code ++ ")"

end SystemError

/-- What comes of opening a file and reading it to its end. -/
inductive FileReading where
  | bytes (content : List UInt8)
  | unopened (e : SystemError)
  | unread (e : SystemError)
  deriving DecidableEq, Repr

/-- A file, or a directory with its entries by name. -/
inductive FileTree where
  | file (content : List UInt8)
  | directory (entries : List (String × FileTree))

/-- A place in a tree: what stands there, and the directories above it, nearest first. -/
structure Place where
  here : FileTree
  above : List FileTree

namespace Place

/-- The place one directory up; the top of the tree is above itself. -/
def up (p : Place) : Place :=
  match p.above with
  | [] => p
  | parent :: rest => ⟨parent, rest⟩

/-- The top of the tree. -/
def top (p : Place) : Place := ⟨p.above.getLastD p.here, []⟩

/-- The most bytes in a name. -/
def nameLimit : Nat := 255

/-- The most bytes in a path. -/
def pathLimit : Nat := 4095

/-- The place that a name leads to.  An empty name, as between two slashes, stays, as `.` does; both
work in directories only. -/
def enter (p : Place) (name : String) : Except SystemError Place :=
  match p.here with
  | .file _ => .error .notDirectory
  | .directory entries =>
    if name = "" ∨ name = "." then .ok p
    else if name = ".." then .ok p.up
    else if nameLimit < name.utf8ByteSize then .error .nameTooLong
    else
      match entries.lookup name with
      | some tree => .ok ⟨tree, p.here :: p.above⟩
      | none => .error .absent

/-- The place that names lead to, one after another. -/
def walk (p : Place) : List String → Except SystemError Place
  | [] => .ok p
  | name :: rest =>
    match p.enter name with
    | .ok next => next.walk rest
    | .error e => .error e

/-- The names in a path. -/
def namesOf (path : String) : List String := (path.toList.splitOn '/').map String.ofList

/-- The place that a path leads to, seen from a working directory. -/
def find (p : Place) (path : String) : Except SystemError Place :=
  if path = "" then .error .absent
  else if pathLimit < path.utf8ByteSize then .error .nameTooLong
  else (if path.toList.head? = some '/' then p.top else p).walk (namesOf path)

/-- Reads the file at a path, seen from a working directory. -/
def read (p : Place) (path : String) : FileReading :=
  match p.find path with
  | .error e => .unopened e
  | .ok ⟨.directory _, _⟩ => .unread .isDirectory
  | .ok ⟨.file content, _⟩ => .bytes content

end Place

/-- A directory with one file in it, below an empty one. -/
example :
    let p : Place := ⟨.directory [("a", .file [1])], [.directory []]⟩
    p.read "a" = .bytes [1] ∧ p.read "./..//." = .unread .isDirectory ∧
      p.read "a/" = .unopened .notDirectory ∧ p.read "../a" = .unopened .absent := by
  decide +kernel

end LoxLang
