import PageScript.Text.Encoding

/-!
# The files that a command line sees

* `Folder` — files by path, below the folder that the command runs in;
* `Folder.home`, `Folder.surroundings` — where that folder stands, and what stands around it;
* `OpenError` — why a path cannot be opened for reading, or its content cannot be read;
* `Folder.open?` — the content of the file at a path;
* `Folder.readText` — the same as text.

A path is walked component by component, from the folder or from the root, and the length of a
component counts only once the walk has come to it. Around the folder there are the top folders of
the standard hierarchy and the empty device, and nothing else is known to exist.
-/

namespace PageScript

/-- Why there is no text at a path. -/
inductive OpenError where
  | notFound
  | isFolder
  /-- A component before the last is a file. -/
  | notFolder
  /-- A component, or the path, is longer than a name may be. -/
  | nameTooLong
  /-- The path holds a null character. -/
  | nullCharacter
  /-- The bytes are no text. -/
  | notText
deriving DecidableEq

/-- The name of the kind of error. -/
def OpenError.kind : OpenError → String
  | notFound => "FileNotFoundError"
  | isFolder => "IsADirectoryError"
  | notFolder => "NotADirectoryError"
  | nameTooLong => "OSError"
  | nullCharacter => "ValueError"
  | notText => "UnicodeDecodeError"

/-- The message of an error, where it has one that does not depend on the system. -/
def OpenError.message? : OpenError → Option String
  | nullCharacter => some "embedded null byte"
  | _ => none

/-- The components of a path that lead anywhere. -/
def pathComponents (path : String) : List String :=
  (path.splitOn "/").filter fun part => part ≠ "" && part ≠ "."

/-- Files by the components of their paths from the root. -/
structure Folder where
  files : List (List String × ByteArray)

namespace Folder

/-- The folder that the command runs in: one of the temporary folders, whose name no path knows. -/
def home : List String := ["tmp", ""]

/-- The top folders of the standard hierarchy. -/
def surroundings : List String :=
  ["bin", "boot", "dev", "etc", "home", "lib", "media", "mnt", "opt", "proc", "root", "run", "sbin",
    "srv", "sys", "tmp", "usr", "var"]

/-- The file that is empty on every system. -/
def emptyDevice : List String × ByteArray := (["dev", "null"], .empty)

/-- The folder that holds the given files, by path. -/
def ofList (files : List (String × ByteArray)) : Folder :=
  ⟨emptyDevice :: files.map fun file => (home ++ pathComponents file.1, file.2)⟩

/-- Whether there is a folder at some components: a known one, or one that files lie below. -/
def isFolder (folder : Folder) (place : List String) : Bool :=
  place.isPrefixOf home || surroundings.any (place = [·]) || folder.files.any fun file =>
    place.isPrefixOf file.1 && place.length < file.1.length

/-- Follows the components of a path from a place. The root is its own parent. -/
def walk (folder : Folder) : (place : List String) → List String → Except OpenError ByteArray
  | _, [] => .error .isFolder
  | place, part :: rest =>
    if part = "" || part = "." then walk folder place rest
    else if part = ".." then walk folder place.dropLast rest
    else if 255 < part.utf8ByteSize then .error .nameTooLong
    else
      let place := place ++ [part]
      match folder.files.lookup place with
      | some bytes => if rest.isEmpty then .ok bytes else .error .notFolder
      | none => if folder.isFolder place then walk folder place rest else .error .notFound

/-- The content of the file at a path. -/
def open? (folder : Folder) (path : String) : Except OpenError ByteArray :=
  if path.toList.contains '\x00' then .error .nullCharacter
  else if path = "" then .error .notFound
  else if 4096 ≤ path.utf8ByteSize then .error .nameTooLong
  else folder.walk (if path.startsWith "/" then [] else home) (path.splitOn "/")

/-- The text of the file at a path. -/
def readText (folder : Folder) (path : String) : Except OpenError String := do
  match Text.decode? (← folder.open? path) with
  | some text => return text
  | none => throw .notText

end Folder

end PageScript
