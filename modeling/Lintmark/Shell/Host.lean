/-
The machine that commands run on: its files, its programs, and what starts when
a path or a name is executed.  Its programs need no loader, and of other files it can
execute scripts only.
-/
import Lintmark.Shell.Tool

namespace Lintmark.Shell

/-- Files and programs of a machine. -/
structure Host where
  files : FileTree
  tools : List (Location × Tool)
  /-- Directories in which names are looked up, with colons between them. -/
  searchPath : Option String

namespace Host

/-- The directories that hold the programs. -/
def toolDirs : List Location :=
  [["bin".toList], ["usr".toList, "bin".toList]]

/-- The programs with their locations. -/
def standardTools : List (Location × Tool) :=
  toolDirs.flatMap fun dir => Tool.names.map fun (name, t) => (dir ++ [name.toList], t)

/-- The files of a machine with nothing on it but programs and devices. -/
def standardFiles : FileTree :=
  let files := standardTools.foldl (fun (t : FileTree) (l, _) => t.addFile l 0o755 []) {}
  let dev := "dev".toList
  ((files.addDirectory [dev]).put [dev, "null".toList] (.device false)).put
    [dev, "zero".toList] (.device true)

/-- How many files are executed in turn, each the interpreter of the one before. -/
def scriptDepth : Nat := 6

/-- How much of a script is looked at for its interpreter. -/
def lineLimit : Nat := 256

/-- Too many scripts are each other's interpreters. -/
def tooManyLevels : SystemError := .code 40

/-- A blank in the first line of a script. -/
def isLineBlank (c : Char) : Bool :=
  c == ' ' || c == '\t'

def trimLine (cs : Bytes) : Bytes :=
  ((cs.dropWhile isLineBlank).reverse.dropWhile isLineBlank).reverse

/-- The interpreter that the first line of a script names, and its argument.  A line
that goes on behind the limit is cut there, but not in the name of the interpreter. -/
def interpreter? (content : Bytes) : Option (Bytes × List Bytes) :=
  match content.take lineLimit with
  | '#' :: '!' :: rest =>
    let ends (c : Char) : Bool := c == '\n' || c == '\x00'
    let line := trimLine ((rest.takeWhile (!ends ·)).take (lineLimit - 3))
    let name := line.takeWhile (!isLineBlank ·)
    let arg := trimLine (line.drop name.length)
    let isCut := lineLimit ≤ content.length &&
      !(rest.dropWhile isLineBlank).any fun c => ends c || isLineBlank c
    if name = [] || isCut then none else some (name, if arg = [] then [] else [arg])
  | _ => none

/-- The executable file that a path leads to. -/
def executable (h : Host) (dir : Location) (p : Path) :
    Except SystemError (Location × Bytes) :=
  (h.files.resolve dir p).bind fun (location, entry) =>
    match entry with
    | .file mode content =>
      if FileTree.executeBit mode then .ok (location, ofBytes content)
      else .error .accessDenied
    | _ => .error .accessDenied

/-- Execute a path from a directory: the program, and the arguments put in front.
A script starts the interpreter that its first line names. -/
def load (h : Host) (dir : Location) : Nat → Path → Except SystemError (Tool × List Bytes)
  | 0, p => (h.executable dir p).bind fun _ => .error tooManyLevels
  | depth + 1, p => (h.executable dir p).bind fun (location, content) =>
    match h.tools.find? (·.1 == location), interpreter? content with
    | some (_, t), _ => .ok (t, [])
    | none, some (name, args) =>
      (h.load dir depth ⟨toText name⟩).map fun (t, before) =>
        (t, before ++ args ++ [ofText p.text])
    | none, none => .error .notExecutable

def goesOn (e : SystemError) : Bool :=
  [SystemError.accessDenied, .noEntry, .notDirectory].contains e

/-- Try paths in turn.  The first that starts wins; denied access counts more
than a missing file. -/
def firstOf (attempt : Path → Except SystemError (Tool × List Bytes)) :
    SystemError → List Path → Except SystemError (Tool × List Bytes)
  | e, [] => .error e
  | e, p :: ps =>
    match attempt p with
    | .ok r => .ok r
    | .error cause =>
      if goesOn cause then firstOf attempt (if e = .accessDenied then e else cause) ps
      else .error cause

/-- The paths that a bare name may have. -/
def spellings (h : Host) (name : String) : List Path :=
  let dirs := (h.searchPath.getD "/bin:/usr/bin").toList.splitOn ':'
  dirs.map fun dir => (⟨String.ofList dir⟩ : Path).join ⟨name⟩

/-- Execute a path, or a bare name that is looked up, from a directory. -/
def start (h : Host) (dir : Location) (exe : Path) : Except SystemError (Tool × List Bytes) :=
  if exe.text = "" then .error .noEntry
  else if exe.text.toList.contains '/' then h.load dir scriptDepth exe
  else firstOf (h.load dir scriptDepth) .noEntry (h.spellings exe.text)

def enter (h : Host) (dir : Location) (p : Path) : Except SystemError Location :=
  (h.files.resolve dir p).bind fun (location, entry) =>
    match entry with
    | .directory => .ok location
    | _ => .error .notDirectory

end Host

end Lintmark.Shell
