/-
Files and directories, and what a path leads to among them.  There are no links, and
whoever looks may enter every directory and read every file.
-/
import Lintmark.Attempt
import Lintmark.Path
import Lintmark.SystemError
import Lintmark.Text.Utf8

namespace Lintmark

inductive Entry where
  | directory
  /-- A regular file with its permission bits. -/
  | file (mode : Nat) (content : List UInt8)
  /-- A device: reading it gives zeros without end, or nothing at all. -/
  | device (endless : Bool)
deriving Repr, DecidableEq

/-- A location in the tree: the names on the way from the root. -/
abbrev Location := List (List Char)

/-- The entries of a tree, each with its location.  The root is a directory. -/
structure FileTree where
  entries : List (Location × Entry) := []
deriving Repr, DecidableEq

namespace FileTree

def at? (t : FileTree) (location : Location) : Option Entry :=
  if location = [] then some .directory
  else (t.entries.find? (·.1 == location)).map (·.2)

/-- Put an entry at a location, over what stands there. -/
def put (t : FileTree) (location : Location) (e : Entry) : FileTree :=
  ⟨(location, e) :: t.entries.filter (·.1 != location)⟩

/-- Make a directory and those it is in, where nothing stands yet. -/
def addDirectory (t : FileTree) (location : Location) : FileTree :=
  (List.range (location.length + 1)).foldl (fun t k =>
    let p := location.take k
    if (t.at? p).isNone then t.put p .directory else t) t

/-- Write a file, making the directories it is in. -/
def addFile (t : FileTree) (location : Location) (mode : Nat) (content : List UInt8) : FileTree :=
  (t.addDirectory location.dropLast).put location (.file mode content)

/-- Go on from a location by the pieces of a path.  Each step, also one that stays
in place, starts from a directory. -/
def follow (t : FileTree) : Location → List (List Char) → Except SystemError Location
  | location, [] => .ok location
  | location, piece :: pieces =>
    match t.at? location with
    | none => .error .noEntry
    | some .directory =>
      match Path.component? piece with
      | none => t.follow location pieces
      | some .parent => t.follow location.dropLast pieces
      | some (.name s) =>
        if Text.Utf8.size s > 255 then .error .nameTooLong
        else t.follow (location ++ [s]) pieces
      | some _ => t.follow location pieces
    | some _ => .error .notDirectory

/-- The location that a path leads to from a directory, and what stands there. -/
def resolve (t : FileTree) (dir : Location) (p : Path) : Except SystemError (Location × Entry) :=
  let cs := p.text.toList
  if cs.contains '\x00' then .error (.other "file name contained an unexpected NUL byte")
  else if cs = [] then .error .noEntry
  else if Text.Utf8.size cs ≥ 4096 then .error .nameTooLong
  else
    (t.follow (if p.isAbsolute then [] else dir) (Path.pieces cs)).bind fun location =>
      match t.at? location with
      | some e => .ok (location, e)
      | none => .error .noEntry

/-- Read a file to its end, which an endless device does not have. -/
def read (t : FileTree) (dir : Location) (p : Path) : Attempt (Except SystemError (List UInt8)) :=
  match t.resolve dir p with
  | .error cause => .ends (.error cause)
  | .ok (_, .file _ content) => .ends (.ok content)
  | .ok (_, .device endless) => if endless then .never else .ends (.ok [])
  | .ok (_, .directory) => .ends (.error .isDirectory)

/-- The text of bytes, which have to be UTF-8. -/
def textOf (bytes : List UInt8) : Except SystemError String :=
  match Text.Utf8.decode? bytes with
  | some cs => .ok (String.ofList cs)
  | none => .error (.other "stream did not contain valid UTF-8")

def readText (t : FileTree) (dir : Location) (p : Path) : Attempt (Except SystemError String) :=
  (t.read dir p).map fun bytes => bytes.bind textOf

def isFile (t : FileTree) (dir : Location) (p : Path) : Bool :=
  match t.resolve dir p with
  | .ok (_, .file _ _) => true
  | _ => false

def executeBit (mode : Nat) : Bool :=
  mode % 2 == 1 || mode / 8 % 2 == 1 || mode / 64 % 2 == 1

/-- The path leads to a regular file that someone may execute. -/
def isExecutable (t : FileTree) (dir : Location) (p : Path) : Bool :=
  match t.resolve dir p with
  | .ok (_, .file mode _) => executeBit mode
  | _ => false

def pathOf (location : Location) : Path :=
  if location = [] then ⟨"/"⟩ else ⟨String.join (location.map fun s => "/" ++ String.ofList s)⟩

/-- The location of an absolute path, its components taken one by one. -/
def locationOf (p : Path) : Location :=
  p.components.foldl (fun location c =>
    match c with
    | .name s => location ++ [s]
    | .parent => location.dropLast
    | _ => location) []

end FileTree

end Lintmark
