/-
Finding executables by name and judging configured ones.
-/
import Lintmark.FileTree

namespace Lintmark.Executable

/-- What the names of executables end with. -/
def nameEnding : String := ""

def fileName (name : String) : String :=
  if name.endsWith nameEnding then name else name ++ nameEnding

/-- The paths that a name has in the absolute ones of some directories. -/
def candidates (name : String) (dirs : List Path) : List Path :=
  (dirs.filter Path.isAbsolute).map (·.join ⟨fileName name⟩)

/-- Keep the first spelling of every path that is not among those seen. -/
def firstSpellings (seen : List Path) : List Path → List Path
  | [] => []
  | p :: ps =>
    if seen.any p.same then firstSpellings seen ps
    else p :: firstSpellings (seen ++ [p]) ps

/-- The paths of a name in some directories that are found executable, in order
and each once.  Relative directories hold none. -/
def among (executable : Path → Bool) (name : String) (dirs : List Path) : List Path :=
  firstSpellings [] ((candidates name dirs).filter executable)

/-- The executables of a name in some directories. -/
def inDirs (t : FileTree) (dir : Location) (name : String) (dirs : List Path) : List Path :=
  among (t.isExecutable dir) name dirs

def searchDirs (searchPath : String) : List Path :=
  (searchPath.toList.splitOn ':').map fun s => ⟨String.ofList s⟩

def inSearchPath (t : FileTree) (dir : Location) (name : String) (searchPath : Option String) :
    List Path :=
  match searchPath with
  | some s => inDirs t dir name (searchDirs s)
  | none => []

/-- The path may be configured: it leads to a file, from the base directory if
it is relative.  A relative path without a base directory is not examined. -/
def isValid (t : FileTree) (dir : Location) (base : Option Path) (p : Path) : Bool :=
  if p.isAbsolute then t.isFile dir p
  else
    match base with
    | some b => t.isFile dir (b.join p)
    | none => true

end Lintmark.Executable
