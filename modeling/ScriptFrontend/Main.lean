import ScriptFrontend.Command.Call

/-!
# Main — the command

Reads the files that the command line names, makes the call, and carries out what it leaves behind.
-/

namespace ScriptFrontend.Main

/-- The paths of the files that a request reads. -/
def readPaths : Request → List String
  | .run task _ =>
    (if task.isText then [] else [task.source]) ++ (givenPath task.aliases).toList
  | _ => []

/-- The folders on the way to the file that a request writes. -/
def foldersOf : Request → List (List String)
  | .run task _ =>
    let names := (task.outPath?.map Folder.namesOf).getD []
    (List.range names.length).map names.take
  | _ => []

/-- A file with its path, if it can be read. -/
def readFile (path : String) : IO (Option (String × List UInt8)) :=
  try
    return some (path, (← IO.FS.readBinFile path).toList)
  catch _ => return none

/-- The folder that a request sees. -/
def folderFor (request : Request) : IO Folder := do
  let files ← (readPaths request).filterMapM readFile
  return { Folder.ofFiles files with folders := foldersOf request }

/-- The status that a run ends with: that of a failure if it is broken off. -/
def statusOf : Ending → Nat
  | .status status => status
  | .broken _ => 1

/-- Writes the files that a call has changed. -/
def writeFiles (changed : List (List String × List UInt8)) : IO Unit :=
  changed.forM fun file =>
    IO.FS.writeBinFile ("/".intercalate file.1) (ByteArray.mk file.2.toArray)

end ScriptFrontend.Main

open ScriptFrontend in
/-- The command: puts out what the call leaves behind and ends with its status. -/
def main (words : List String) : IO UInt32 := do
  let folder ← Main.folderFor (requestOf words)
  let (report, records) := call words folder
  (← IO.getStderr).putStr (report.messages records)
  (← IO.getStdout).putStr report.output
  try
    Main.writeFiles (report.folder.changedSince folder)
    return (Main.statusOf report.ending).toUInt32
  catch fault =>
    (← IO.getStderr).putStrLn ("error: " ++ toString fault)
    return 1
