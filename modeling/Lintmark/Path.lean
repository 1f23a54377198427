/-
Paths as text, and the components that they name.  Repeated slashes and single
dots inside a path name nothing.
-/
namespace Lintmark

/-- A path as it is spelled. -/
structure Path where
  text : String
deriving Repr, DecidableEq, Inhabited

inductive Component where
  | root
  /-- A single dot at the start of a relative path. -/
  | here
  | parent
  | name (s : List Char)
deriving Repr, DecidableEq

namespace Path

/-- The pieces between slashes. -/
def pieces (cs : List Char) : List (List Char) :=
  cs.splitOn '/'

/-- A piece that does not stand at the start of a relative path. -/
def component? (piece : List Char) : Option Component :=
  match piece with
  | [] => none
  | ['.'] => none
  | ['.', '.'] => some .parent
  | s => some (.name s)

/-- The path starts at the root directory. -/
def isAbsolute (p : Path) : Bool :=
  p.text.toList.head? == some '/'

def components (p : Path) : List Component :=
  match pieces p.text.toList with
  | [] => []
  | first :: rest =>
    let start :=
      if p.isAbsolute then [.root]
      else if first = ['.'] then [.here]
      else (component? first).toList
    start ++ rest.filterMap component?

/-- Two paths name the same components. -/
def same (p q : Path) : Bool :=
  p.components == q.components

/-- The last component, if it is a name. -/
def fileName? (p : Path) : Option (List Char) :=
  match p.components.getLast? with
  | some (.name s) => some s
  | _ => none

/-- The part of a name behind its last dot, unless that dot is its first
character. -/
def extensionOf? (name : List Char) : Option (List Char) :=
  let behind := (name.reverse.takeWhile (· != '.')).reverse
  if behind.length + 1 < name.length then some behind else none

def extension? (p : Path) : Option (List Char) :=
  p.fileName?.bind extensionOf?

/-- The path `q` as seen from the directory `p`.  An absolute path stands for
itself. -/
def join (p q : Path) : Path :=
  if q.isAbsolute then q
  else
    match p.text.toList.getLast? with
    | none => ⟨p.text ++ q.text⟩
    | some '/' => ⟨p.text ++ q.text⟩
    | some _ => ⟨p.text ++ "/" ++ q.text⟩

def scriptExtensions : List (List Char) :=
  [['s', 'h'], ['b', 'a', 's', 'h']]

/-- The path looks like a shell script. -/
def isShellScript (p : Path) : Bool :=
  match p.extension? with
  | some e => scriptExtensions.contains e
  | none => false

end Path

end Lintmark
