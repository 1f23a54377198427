/-
The program.  It looks at the files that its arguments lead to, has the command
line decide on what it saw, and prints.
-/
import Lintmark.CommandLine
import Lintmark.Shell.Child

namespace Lintmark.Main

open CommandLine (Machine Request Task)
open Shell (Host)

/-- Add what stands at a path of this machine.  Nothing is known about the
permissions of a file, so that it counts as one that may be executed. -/
def look (t : FileTree) (p : Path) : IO FileTree := do
  let full := (← IO.currentDir) / p.text
  let location := FileTree.locationOf ⟨full.toString⟩
  if ← full.isDir then return t.addDirectory location
  match ← (IO.FS.readBinFile full).toBaseIO with
  | .ok bytes => return t.addFile location 0o755 bytes.toList
  | .error _ => return t

/-- The files that a task reads. -/
def filesOf : Task → List Path
  | .check files _ _ => files
  | _ => []

/-- The machine with what stands at some paths. -/
def machineOf (paths : List Path) : IO Machine := do
  let dir := FileTree.locationOf ⟨(← IO.currentDir).toString⟩
  let searchPath ← IO.getEnv "PATH"
  let files ← paths.foldlM look (Host.standardFiles.addDirectory dir)
  let host : Host := { files, tools := Host.standardTools, searchPath }
  return { files, dir, searchPath, run := fun _ => host.run dir, jobs := 4 }

/-- The paths that a request leads to, its settings file aside. -/
def pathsOf (m : Machine) (r : Request) : List Path :=
  let executable := match m.settings r.options with
    | .ends (.ok s) => s.resolvedExecutable
    | _ => ⟨defaultExecutable⟩
  let names := Executable.candidates defaultExecutable
    ((m.searchPath.map Executable.searchDirs).getD [])
  filesOf r.task ++ executable :: names

/-- The machine with what stands at the paths that arguments lead to. -/
def machineFor (args : List String) : IO Machine := do
  match Request.ofArguments args with
  | .error _ => machineOf []
  | .ok r =>
    let config := r.options.config.toList
    let m ← machineOf config
    machineOf (config ++ pathsOf m r)

end Lintmark.Main

open Lintmark in
def main (args : List String) : IO UInt32 := do
  let m ← Main.machineFor args
  match m.main args with
  | some outcome =>
    IO.print outcome.stdout
    IO.eprint outcome.stderr
    return outcome.exit.toUInt32
  | none =>
    -- What goes on for ever ends here with the longest sleep that can be asked for.
    IO.sleep UInt32.size.pred.toUInt32
    return CommandLine.breakdown.toUInt32
