/-
Writing JSON over several lines, two spaces deeper in every list and object.
-/
namespace Lintmark.Json

inductive Tree where
  | null
  | bool (b : Bool)
  | natural (n : Nat)
  | string (s : String)
  | array (items : List Tree)
  | object (members : List (String × Tree))

def escaped (c : Char) : List Char :=
  match c with
  | '"' => ['\\', '"']
  | '\\' => ['\\', '\\']
  | '\x08' => ['\\', 'b']
  | '\x0c' => ['\\', 'f']
  | '\n' => ['\\', 'n']
  | '\r' => ['\\', 'r']
  | '\t' => ['\\', 't']
  | c =>
    if c < ' ' then
      ['\\', 'u', '0', '0', Nat.digitChar (c.toNat / 16), Nat.digitChar (c.toNat % 16)]
    else [c]

def writtenString (s : String) : List Char :=
  '"' :: s.toList.flatMap escaped ++ ['"']

/-- A new line, indented. -/
def newLine (depth : Nat) : List Char :=
  '\n' :: List.replicate (2 * depth) ' '

mutual

/-- A value that stands `depth` levels deep. -/
def Tree.written : Nat → Tree → List Char
  | _, .null => ['n', 'u', 'l', 'l']
  | _, .bool true => ['t', 'r', 'u', 'e']
  | _, .bool false => ['f', 'a', 'l', 's', 'e']
  | _, .natural n => Nat.toDigits 10 n
  | _, .string s => writtenString s
  | _, .array [] => ['[', ']']
  | depth, .array (v :: vs) =>
    '[' :: newLine (depth + 1) ++ v.written (depth + 1) ++ Tree.writtenItems (depth + 1) vs ++
      newLine depth ++ [']']
  | _, .object [] => ['{', '}']
  | depth, .object ((k, v) :: ms) =>
    '{' :: newLine (depth + 1) ++ writtenString k ++ [':', ' '] ++ v.written (depth + 1) ++
      Tree.writtenMembers (depth + 1) ms ++ newLine depth ++ ['}']

/-- Items behind the first one. -/
def Tree.writtenItems : Nat → List Tree → List Char
  | _, [] => []
  | depth, v :: vs => ',' :: newLine depth ++ v.written depth ++ Tree.writtenItems depth vs

/-- Members behind the first one. -/
def Tree.writtenMembers : Nat → List (String × Tree) → List Char
  | _, [] => []
  | depth, (k, v) :: ms =>
    ',' :: newLine depth ++ writtenString k ++ [':', ' '] ++ v.written depth ++
      Tree.writtenMembers depth ms

end

def Tree.text (t : Tree) : String :=
  String.ofList (t.written 0)

end Lintmark.Json
