import RuleWeaver.CommandLine.Basic

/-!
# The program

Reads the tree below the working directory, and what the command is told of outside it, as a disk; runs the command on
that disk; and writes the files that changed.
-/

namespace RuleWeaver.Program

/-- Adds the file at a path, if it can be read. -/
def loadFile (disk : Disk) (place : Place) (path : String) : IO Disk := do
  try return disk.put place (.ofBytes (← IO.FS.readBinFile path).toList)
  catch _ => return disk

/-- Adds a folder and what is below it.  Links to folders are not followed. -/
partial def loadFolder (disk : Disk) (place : Place) (path : String) : IO Disk := do
  let entries ← (← IO.FS.realPath path).readDir
  entries.foldlM (fun disk entry => do
    let next := place ++ [entry.fileName.toList]
    let below := path ++ "/" ++ entry.fileName
    match (← entry.path.symlinkMetadata).type with
    | .dir => loadFolder disk next below
    | .file => loadFile disk next below
    | .symlink => if ← entry.path.isDir then return disk else loadFile disk next below
    | .other => return disk) (disk.addFolder place)

/-- Adds what a path leads to, and the folder around it. -/
def loadPath (disk : Disk) (path : Path) : IO Disk := do
  let name := String.ofList path
  let place := Disk.placeOf path
  try
    if ← (← IO.FS.realPath name).isDir then loadFolder disk place name
    else loadFile disk place name
  catch _ =>
    try
      if ← (← IO.FS.realPath (String.ofList (Path.parent path))).isDir then return disk.addFolder place.dropLast
      else return disk
    catch _ => return disk

/-- Writes a file, and makes the folders on the way to it. -/
def save (place : Place) (contents : Contents) : IO Unit := do
  let path := Disk.pathOf place
  let folder := Path.parent path
  unless folder.isEmpty do IO.FS.createDirAll (String.ofList folder)
  IO.FS.writeFile (String.ofList path) (String.ofList contents.shown)

end RuleWeaver.Program

open RuleWeaver in
/-- Runs the command line on the file system. -/
def main (args : List String) : IO UInt32 := do
  let words := args.map String.toList
  let command := CommandLine.command? words
  let input ←
    match command with
    | some (.plugin _) => (← IO.getStdin).readBinToEnd
    | _ => pure .empty
  let input := input.toList
  let disk ← Program.loadFolder .empty [] "."
  let outside := (command.map (·.paths input)).getD [] |>.filter (·.head? = some '/')
  let disk ← outside.foldlM Program.loadPath disk
  let ending := CommandLine.run words disk input
  for (place, contents) in disk.changes ending.disk do
    if let some contents := contents then Program.save place contents
  IO.print (String.ofList ending.output)
  if let some line := ending.error then IO.eprintln (String.ofList line)
  return ending.exitCode.toUInt32
