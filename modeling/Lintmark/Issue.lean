/-
Findings as the linter reports them.  Lines and display columns count from
one, and zero stands for a number that was not given.
-/
import Lintmark.Text.Character

namespace Lintmark

/-- One finding of the linter. -/
structure Issue where
  line : Nat := 0
  endLine : Nat := 0
  column : Nat := 0
  endColumn : Nat := 0
  level : String := ""
  code : Option String := none
  message : String := ""
deriving Repr, DecidableEq, Inhabited

namespace Issue

/-- The last line, which is the first one unless given. -/
def effectiveEndLine (i : Issue) : Nat :=
  if i.endLine = 0 then i.line else i.endLine

/-- The end column, which is the start column unless given. -/
def effectiveEndColumn (i : Issue) : Nat :=
  if i.endColumn = 0 then i.column else i.endColumn

/-- The code as users know it, such as SC2086. -/
def displayCode (i : Issue) : Option String :=
  i.code.map ("SC" ++ ·)

/-- The trimmed message, followed by the code in brackets. -/
def formatted (i : Issue) : String :=
  Text.trim i.message ++ " [" ++ i.displayCode.getD "none" ++ "]"

end Issue

end Lintmark
