import ScriptFrontend.Text.Quoted
import ScriptFrontend.Text.Split

/-!
# Command/Folder — the files a command can reach

A `Folder` holds files, each under the names on the way to it from the folder where the command
works.  Names from the root of all folders start with a slash, and names from a folder above start
with two dots.  A folder is there if it is on the way to a file, or is listed.

A path is followed name by name: an empty name or a dot stays where it is, and two dots lead back.
A file can be written only into a folder that is there.  What goes wrong with a path is a
`PathFault`.
-/

namespace ScriptFrontend

/-- Files, each with the names on the way to it and its bytes, and further folders. -/
structure Folder where
  files : List (List String × List UInt8)
  folders : List (List String) := []
  deriving DecidableEq

/-- What is wrong with a path. -/
inductive PathFault where
  | missing
  /-- A file stands where a folder is needed. -/
  | notFolder
  /-- A folder stands where a file is needed. -/
  | isFolder
  | tooLong
  /-- The path holds the character U+0000. -/
  | zeroChar
  deriving DecidableEq

namespace PathFault

/-- The number and the words of a fault of the file system. -/
def reason? : PathFault → Option (Nat × String)
  | missing => some (2, "No such file or directory")
  | notFolder => some (20, "Not a directory")
  | isFolder => some (21, "Is a directory")
  | tooLong => some (36, "File name too long")
  | zeroChar => none

/-- What a fault says about a path. -/
def message (fault : PathFault) (path : String) : String :=
  match fault.reason? with
  | some (number, words) => "[Errno " ++ toString number ++ "] " ++ words ++ ": " ++ quoted path
  | none => "embedded null byte"

end PathFault

namespace Folder

/-- The most bytes that a name may have. -/
def longestName : Nat := 255

/-- The most bytes that a path may have. -/
def longestPath : Nat := 4095

/-- Whether a name leads to no file: it is empty, one dot, or two dots. -/
def isStep (name : String) : Bool := name == "" || name == "." || name == ".."

/-- The name of the root of all folders. -/
def root : String := "/"

/-- The names that lead one folder back. -/
def above (names : List String) : List String :=
  if names = [root] then names
  else if names.all (· == "..") then names ++ [".."]
  else names.dropLast

/-- The names from which a path starts, and its own names. -/
def startOf (path : String) : List String × List String :=
  let names := splitAround '/' path
  (if names.head? = some "" then [root] else [], names)

/-- The names that one more name leads to, whatever is there. -/
def follow (names : List String) (name : String) : List String :=
  if name = "" ∨ name = "." then names
  else if name = ".." then above names
  else names ++ [name]

/-- The names that a path leads to, whatever is there. -/
def namesOf (path : String) : List String :=
  (startOf path).2.foldl follow (startOf path).1

/-- The folder of files that are given by their paths. -/
def ofFiles (files : List (String × List UInt8)) : Folder :=
  { files := files.map fun file => (namesOf file.1, file.2) }

/-- The bytes of a file. -/
def bytes? (folder : Folder) (names : List String) : Option (List UInt8) :=
  folder.files.lookup names

/-- Whether names lead to a folder. -/
def isFolder (folder : Folder) (names : List String) : Bool :=
  names.all (· == "..") || names == [root] || folder.folders.contains names ||
    folder.files.any fun file => names.isPrefixOf file.1 && names != file.1

/-- The folder with a file written. -/
def put (folder : Folder) (names : List String) (bytes : List UInt8) : Folder :=
  { folder with
    files :=
      if (folder.bytes? names).isSome then
        folder.files.map fun file => if file.1 = names then (names, bytes) else file
      else folder.files ++ [(names, bytes)] }

/-- The files of a folder that are not the same in an earlier one. -/
def changedSince (folder earlier : Folder) : List (List String × List UInt8) :=
  folder.files.filter fun file => earlier.bytes? file.1 != some file.2

/-! ## Paths -/

/-- One step of a path to a folder. -/
def enter (folder : Folder) (names : List String) (name : String) :
    Except PathFault (List String) :=
  if isStep name then .ok (follow names name)
  else if name.utf8ByteSize > longestName then .error .tooLong
  else if folder.isFolder (names ++ [name]) then .ok (names ++ [name])
  else if (folder.bytes? (names ++ [name])).isSome then .error .notFolder
  else .error .missing

/-- What rules a path out at once. -/
def refused? (path : String) : Option PathFault :=
  if path.toList.contains (Char.ofNat 0) then some .zeroChar
  else if path.utf8ByteSize > longestPath then some .tooLong
  else if path = "" then some .missing
  else none

/-- The bytes of the file behind the last name of a path. -/
def readAt (folder : Folder) (names : List String) (name : String) :
    Except PathFault (List UInt8) :=
  if isStep name then .error .isFolder
  else if name.utf8ByteSize > longestName then .error .tooLong
  else if folder.isFolder (names ++ [name]) then .error .isFolder
  else
    match folder.bytes? (names ++ [name]) with
    | some bytes => .ok bytes
    | none => .error .missing

/-- **The bytes of a file.** -/
def read (folder : Folder) (path : String) : Except PathFault (List UInt8) :=
  match refused? path with
  | some fault => .error fault
  | none =>
    let start := startOf path
    match start.2.dropLast.foldlM folder.enter start.1 with
    | .error fault => .error fault
    | .ok names => folder.readAt names (start.2.getLastD "")

/-- Writes the file behind the last name of a path. -/
def writeAt (folder : Folder) (names : List String) (name : String) (bytes : List UInt8) :
    Except PathFault Folder :=
  if isStep name then .error .isFolder
  else if name.utf8ByteSize > longestName then .error .tooLong
  else if folder.isFolder (names ++ [name]) then .error .isFolder
  else .ok (folder.put (names ++ [name]) bytes)

/-- The names of a path without the empty ones at its end. -/
def withoutEndingSlashes (names : List String) : List String :=
  (names.reverse.dropWhile (· == "")).reverse

/-- **Writes a file.**  A path that ends in a slash can only mean a folder. -/
def write (folder : Folder) (path : String) (bytes : List UInt8) : Except PathFault Folder :=
  match refused? path with
  | some fault => .error fault
  | none =>
    let start := startOf path
    let own := withoutEndingSlashes start.2
    match own.dropLast.foldlM folder.enter start.1 with
    | .error fault => .error fault
    | .ok names =>
      if own.length < start.2.length then .error .isFolder
      else folder.writeAt names (own.getLastD "") bytes

end Folder

end ScriptFrontend
