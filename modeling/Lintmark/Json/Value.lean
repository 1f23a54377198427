/-
JSON values, and why and where reading them fails.  Members of an object keep their
order and may repeat a name.  A failure says how many bytes of the text were left
unread; the line and column follow from the text.
-/
import Lintmark.Decimal.Shortest
import Lintmark.Text.Character
import Lintmark.Text.Utf8

namespace Lintmark.Json

/-- A number: whole if it is written without fraction and exponent and fits 64
bits, otherwise binary floating point. -/
inductive Number where
  /-- A whole number from zero on, below 2^64. -/
  | natural (n : Nat)
  /-- The negative whole number `-n`, with `n` at most 2^63. -/
  | negative (n : Nat)
  | float (minus : Bool) (magnitude : Decimal.Binary)
deriving Repr, DecidableEq

inductive Value where
  | null
  | bool (b : Bool)
  | number (n : Number)
  | string (s : String)
  | array (items : List Value)
  | object (members : List (String × Value))

/-- What stands where something else was expected. -/
inductive Found where
  | null
  | bool (b : Bool)
  | number (n : Number)
  | string (s : String)
  | array
  | object
deriving Repr, DecidableEq

def Number.describe : Number → String
  | .natural n => "integer `" ++ toString n ++ "`"
  | .negative n => "integer `-" ++ toString n ++ "`"
  | .float minus a => "floating point `" ++ Decimal.text minus a ++ "`"

/-- Name a found value. -/
def Found.describe : Found → String
  | null => "null"
  | bool b => if b then "boolean `true`" else "boolean `false`"
  | number n => n.describe
  | string s => "string " ++ Text.quoted s
  | array => "sequence"
  | object => "map"

inductive Cause where
  | eofInValue
  | eofInString
  | eofInList
  | eofInObject
  | valueExpected
  | identExpected
  | keyNotString
  | colonExpected
  | listCommaOrEndExpected
  | objectCommaOrEndExpected
  | trailingComma
  | trailingCharacters
  | invalidNumber
  | numberOutOfRange
  | invalidEscape
  | controlCharacter
  | loneSurrogate
  | hexEscapeEnds
  | tooDeep
  | invalidType (found : Found) (expected : String)
  | invalidValue (found : Found) (expected : String)
  | duplicateField (name : String)
deriving Repr, DecidableEq

def Cause.message : Cause → String
  | eofInValue => "EOF while parsing a value"
  | eofInString => "EOF while parsing a string"
  | eofInList => "EOF while parsing a list"
  | eofInObject => "EOF while parsing an object"
  | valueExpected => "expected value"
  | identExpected => "expected ident"
  | keyNotString => "key must be a string"
  | colonExpected => "expected `:`"
  | listCommaOrEndExpected => "expected `,` or `]`"
  | objectCommaOrEndExpected => "expected `,` or `\x7d`"
  | trailingComma => "trailing comma"
  | trailingCharacters => "trailing characters"
  | invalidNumber => "invalid number"
  | numberOutOfRange => "number out of range"
  | invalidEscape => "invalid escape"
  | controlCharacter => "control character (\\u0000-\\u001F) found while parsing a string"
  | loneSurrogate => "lone leading surrogate in hex escape"
  | hexEscapeEnds => "unexpected end of hex escape"
  | tooDeep => "recursion limit exceeded"
  | invalidType found expected => "invalid type: " ++ found.describe ++ ", expected " ++ expected
  | invalidValue found expected => "invalid value: " ++ found.describe ++ ", expected " ++ expected
  | duplicateField name => "duplicate field `" ++ name ++ "`"

/-- A failure: its cause and the number of bytes left unread. -/
structure Failure where
  cause : Cause
  unread : Nat
deriving Repr, DecidableEq

/-- Fail behind the bytes read so far. -/
def failBehind (cause : Cause) (rest : List Char) : Except Failure α :=
  .error ⟨cause, Text.Utf8.size rest⟩

/-- Fail on the next byte, or at the end when there is none. -/
def failOn (cause : Cause) (rest : List Char) : Except Failure α :=
  .error ⟨cause, Text.Utf8.size rest - 1⟩

/-- A place in a text: its line, counted from one, and the bytes before it on
that line. -/
structure Place where
  line : Nat
  column : Nat
deriving Repr, DecidableEq

/-- The place that lies `bytes` bytes further on. -/
def Place.advance (p : Place) : List Char → Nat → Place
  | [], _ => p
  | c :: cs, bytes =>
    if bytes < c.utf8Size then ⟨p.line, p.column + bytes⟩
    else
      let q : Place := if c = '\n' then ⟨p.line + 1, 0⟩ else ⟨p.line, p.column + c.utf8Size⟩
      q.advance cs (bytes - c.utf8Size)

def Failure.place (f : Failure) (text : List Char) : Place :=
  Place.advance ⟨1, 0⟩ text (Text.Utf8.size text - f.unread)

def Failure.message (f : Failure) (text : List Char) : String :=
  let p := f.place text
  f.cause.message ++ " at line " ++ toString p.line ++ " column " ++ toString p.column

end Lintmark.Json
