/-
The words of JSON: space between tokens, the three names, strings and numbers.
Each reader takes the unread characters and returns what it read with the
characters behind it.
-/
import Lintmark.Json.Value

namespace Lintmark.Json

abbrev Read (α : Type) := Except Failure (α × List Char)

/-- Go on with what was read and the characters behind it. -/
def Read.andThen (r : Read α) (next : α → List Char → Read β) : Read β :=
  match r with
  | .ok (a, rest) => next a rest
  | .error f => .error f

@[simp]
theorem Read.andThen_ok (a : α) (rest : List Char) (next : α → List Char → Read β) :
    Read.andThen (.ok (a, rest)) next = next a rest := rfl

theorem Read.andThen_assoc (r : Read α) (f : α → List Char → Read β)
    (g : β → List Char → Read γ) :
    (r.andThen f).andThen g = r.andThen fun a rest => (f a rest).andThen g := by
  cases r <;> rfl

/-- A chain of readers succeeds when each of them does. -/
theorem Read.andThen_eq_ok {r : Read α} {next : α → List Char → Read β} {x : β × List Char} :
    r.andThen next = .ok x ↔ ∃ a rest, r = .ok (a, rest) ∧ next a rest = .ok x := by
  cases r with
  | error f => simp [Read.andThen]
  | ok read =>
      obtain ⟨a, rest⟩ := read
      constructor
      · exact fun h => ⟨a, rest, rfl, h⟩
      · rintro ⟨_, _, ⟨⟩, h⟩
        exact h

theorem Read.andThen_pure_eq_ok {r : Read α} {f : α → β} {b : β} {rest : List Char} :
    (r.andThen fun a rest => .ok (f a, rest)) = .ok (b, rest) ↔
      ∃ a, r = .ok (a, rest) ∧ f a = b := by
  rw [Read.andThen_eq_ok]
  constructor
  · rintro ⟨a, _, hr, h⟩
    obtain ⟨hfa, rfl⟩ := Prod.mk.inj (Except.ok.inj h)
    exact ⟨a, hr, hfa⟩
  · rintro ⟨a, hr, rfl⟩
    exact ⟨a, rest, hr, rfl⟩

def isSpace (c : Char) : Bool :=
  c == ' ' || c == '\n' || c == '\t' || c == '\r'

def skipSpace (cs : List Char) : List Char :=
  cs.dropWhile isSpace

def isDigit (c : Char) : Bool :=
  '0' ≤ c && c ≤ '9'

def digitValue (c : Char) : Nat :=
  c.toNat - '0'.toNat

def hexValue? (c : Char) : Option Nat :=
  if '0' ≤ c && c ≤ '9' then some (c.toNat - '0'.toNat)
  else if 'a' ≤ c && c ≤ 'f' then some (c.toNat - 'a'.toNat + 10)
  else if 'A' ≤ c && c ≤ 'F' then some (c.toNat - 'A'.toNat + 10)
  else none

/-- Read the given letters.  The first byte that differs is read too. -/
def word : List Char → List Char → Read Unit
  | [], cs => .ok ((), cs)
  | _ :: _, [] => failBehind .eofInValue []
  | w :: ws, c :: cs => if c = w then word ws cs else failOn .identExpected (c :: cs)

/-- Read four hexadecimal digits.  Four bytes count as read even if they are no
digits, and all of them if fewer are left. -/
def hexEscape (cs : List Char) : Read Nat :=
  if Text.Utf8.size cs < 4 then failBehind .eofInString []
  else
    match cs with
    | a :: b :: c :: d :: rest =>
      match hexValue? a, hexValue? b, hexValue? c, hexValue? d with
      | some a, some b, some c, some d => .ok (((a * 16 + b) * 16 + c) * 16 + d, rest)
      | _, _, _, _ => .error ⟨.invalidEscape, Text.Utf8.size cs - 4⟩
    | _ => .error ⟨.invalidEscape, Text.Utf8.size cs - 4⟩

def escapeLetter? : Char → Option Char
  | '"' => some '"'
  | '\\' => some '\\'
  | '/' => some '/'
  | 'b' => some '\x08'
  | 'f' => some '\x0c'
  | 'n' => some '\n'
  | 'r' => some '\r'
  | 't' => some '\t'
  | _ => none

/-- Read the second half of a surrogate pair and join the halves. -/
def lowSurrogate (high : Nat) : List Char → Read Char
  | '\\' :: 'u' :: cs =>
    (hexEscape cs).andThen fun low rest =>
      if 0xdc00 ≤ low && low ≤ 0xdfff then
        .ok (Char.ofNat ((high - 0xd800) * 0x400 + (low - 0xdc00) + 0x10000), rest)
      else failBehind .loneSurrogate rest
  | ['\\'] => failBehind .eofInString []
  | [] => failBehind .eofInString []
  | '\\' :: cs => failOn .hexEscapeEnds cs
  | cs => failOn .hexEscapeEnds cs

/-- Read an escape, its backslash already read. -/
def escape : List Char → Read Char
  | [] => failBehind .eofInString []
  | 'u' :: cs =>
    (hexEscape cs).andThen fun v rest =>
      if 0xdc00 ≤ v && v ≤ 0xdfff then failBehind .loneSurrogate rest
      else if 0xd800 ≤ v && v ≤ 0xdbff then lowSurrogate v rest
      else .ok (Char.ofNat v, rest)
  | c :: cs =>
    match escapeLetter? c with
    | some e => .ok (e, cs)
    | none => failOn .invalidEscape (c :: cs)

/-- Read an escape of a skipped string, where halves of surrogate pairs need
not match. -/
def skipEscape : List Char → Read Unit
  | [] => failBehind .eofInString []
  | 'u' :: cs => (hexEscape cs).andThen fun _ rest => .ok ((), rest)
  | c :: cs =>
    if (escapeLetter? c).isSome then .ok ((), cs) else failOn .invalidEscape (c :: cs)

/-- Read up to the closing quote, at most `fuel` characters or escapes; the
characters read so far stand last one first. -/
def stringFrom : Nat → List Char → List Char → Read String
  | 0, _, _ => failBehind .eofInString []
  | fuel + 1, done, cs =>
    match cs with
    | [] => failBehind .eofInString []
    | '"' :: rest => .ok (String.ofList done.reverse, rest)
    | '\\' :: rest => (escape rest).andThen fun c rest => stringFrom fuel (c :: done) rest
    | c :: rest =>
      if c < ' ' then failOn .controlCharacter (c :: rest)
      else stringFrom fuel (c :: done) rest

/-- Read a string, its opening quote already read. -/
def string (cs : List Char) : Read String :=
  stringFrom (cs.length + 1) [] cs

/-- Skip up to the closing quote, at most `fuel` characters or escapes. -/
def skipStringFrom : Nat → List Char → Read Unit
  | 0, _ => failBehind .eofInString []
  | fuel + 1, cs =>
    match cs with
    | [] => failBehind .eofInString []
    | '"' :: rest => .ok ((), rest)
    | '\\' :: rest => (skipEscape rest).andThen fun _ rest => skipStringFrom fuel rest
    | c :: rest =>
      if c < ' ' then failBehind .controlCharacter (c :: rest)
      else skipStringFrom fuel rest

/-- Skip a string, its opening quote already read.  A control character is
reported in front of it. -/
def skipString (cs : List Char) : Read Unit :=
  skipStringFrom (cs.length + 1) cs

end Lintmark.Json
