/-!
# Folders

Text files in a folder, found by their paths.  A path is followed name by name, and each name but
the last has to be that of a directory.  Of the system around the folder nothing is known but that
it has directories above the folder, and the null device.
-/
namespace Dataflow.Command

/-- Why a path leads to no text. -/
inductive Obstacle where
  | missing
  /-- A file stands where the path needs a directory. -/
  | notDirectory
  /-- The path ends in a directory. -/
  | isDirectory
  | nameTooLong
  /-- What stands in the file is not UTF-8. -/
  | notText
  deriving DecidableEq

def Obstacle.message : Obstacle → String
  | .missing => "No such file or directory (os error 2)"
  | .notDirectory => "Not a directory (os error 20)"
  | .isDirectory => "Is a directory (os error 21)"
  | .nameTooLong => "File name too long (os error 36)"
  | .notText => "stream did not contain valid UTF-8"

/-- Where a path has led so far. -/
inductive Place where
  /-- Into the folder, along these names. -/
  | inside (names : List String)
  /-- To a directory of the system around it. -/
  | outside
  deriving DecidableEq

/-- The text files of a folder, each with the names that lead to it. -/
structure Folder where
  files : List (List String × String)

namespace Folder

/-- The names on a path.  Empty names and single dots stay in place. -/
def names (path : String) : List String :=
  (path.splitOn "/").filter fun name => name ≠ "" && name ≠ "."

/-- The folder with the given files under the given paths. -/
def ofFiles (files : List (String × String)) : Folder := ⟨files.map fun f => (names f.1, f.2)⟩

/-- The text of the file that some names lead to. -/
def text? (f : Folder) (names : List String) : Option String :=
  (f.files.find? fun file => file.1 = names).map Prod.snd

/-- Whether some names lead to a directory: the folder itself, or one with a file below it. -/
def isDirectory (f : Folder) (names : List String) : Bool :=
  names.isEmpty || f.files.any fun file => names.isPrefixOf file.1 && file.1 ≠ names

/-- The length that no name exceeds, in bytes. -/
def longestName : Nat := 255

/-- The length that no path reaches, in bytes. -/
def longestPath : Nat := 4096

def step (f : Folder) (place : Place) (name : String) : Except Obstacle Place :=
  match place with
  | .outside => if name = "" || name = "." || name = ".." then .ok .outside else .error .missing
  | .inside names =>
    if !f.isDirectory names then .error .notDirectory
    else if name = "" || name = "." then .ok place
    else if name = ".." then .ok (if names.isEmpty then .outside else .inside names.dropLast)
    else if longestName < name.utf8ByteSize then .error .nameTooLong
    else
      let names := names ++ [name]
      if f.isDirectory names || (f.text? names).isSome then .ok (.inside names)
      else .error .missing

def resolve (f : Folder) (path : String) : Except Obstacle Place :=
  if path = "" then .error .missing
  else if longestPath ≤ path.utf8ByteSize then .error .nameTooLong
  else
    (path.splitOn "/").foldlM f.step (if path.startsWith "/" then .outside else .inside [])

def read (f : Folder) (path : String) : Except Obstacle String :=
  if path = "/dev/null" then .ok ""
  else do
    match ← f.resolve path with
    | .outside => .error .isDirectory
    | .inside names =>
      match f.text? names with
      | some text => return text
      | none => .error .isDirectory

end Folder
end Dataflow.Command
