import SymbolIndex.Command.Run

/-!
# The command line

No parsing library is linked in, so a scan ends where the library would be loaded. The disk is read
only as far as the given paths lead.
-/

namespace SymbolIndex.Command

/-- Add what a path leads to, if it leads anywhere. -/
def addExisting (base : String) (root : Directory) (path : String) : IO Directory := do
  let place := (← IO.currentDir) / Path.normalize base path
  let parts := Path.components base path
  if ← place.isDir then return root.addFolder parts
  else if ← place.pathExists then return root.addFile parts
  else return root

/-- The part of the disk that the given paths pass through. -/
def surveyDisk (paths : List String) : IO Disk := do
  let base := (← IO.currentDir).toString
  let root := Directory.empty.addFolder (Path.components base base)
  return { root := ← (paths.flatMap Path.stages).foldlM (addExisting base) root, base := base }

def hostFor (arguments : List String) : IO Host := do
  let paths :=
    match Options.read arguments with
    | .ok options => options.paths
    | .error _ => []
  return {
    disk := ← surveyDisk paths
    tools := ⟨.linux, fun _ => .loadError "Error parsing translation unit.", .failed⟩
    libraryLoads := false }

end SymbolIndex.Command

open SymbolIndex.Command in
def main (arguments : List String) : IO UInt32 := do
  match run (← hostFor arguments) arguments with
  | .error refusal =>
    IO.eprintln ("Error: " ++ refusal.message)
    return refusal.exitCode.toUInt32
  | .ok report =>
    IO.print report.output
    IO.eprint report.errors
    if let some (path, text) := report.written then
      IO.FS.writeFile path text
    return report.exitCode.toUInt32
