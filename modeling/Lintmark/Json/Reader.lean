/-
Reading JSON values.  Lists and objects nest to a limited depth in values that
are kept, and to any depth in values that are skipped.
-/
import Lintmark.Json.Numeral

namespace Lintmark.Json

/-- Open lists and objects must stay below this number. -/
def depthLimit : Nat := 128

mutual

/-- Read a value with `fuel` steps left, in which `depth - 1` lists and objects
may be open at a time. -/
def valueFrom : Nat → Nat → List Char → Read Value
  | 0, _, cs => failBehind .eofInValue cs
  | fuel + 1, depth, cs =>
    match skipSpace cs with
    | [] => failOn .eofInValue []
    | 'n' :: rest => (word ['u', 'l', 'l'] rest).andThen fun _ rest => .ok (.null, rest)
    | 't' :: rest => (word ['r', 'u', 'e'] rest).andThen fun _ rest => .ok (.bool true, rest)
    | 'f' :: rest => (word ['a', 'l', 's', 'e'] rest).andThen fun _ rest => .ok (.bool false, rest)
    | '"' :: rest => (string rest).andThen fun s rest => .ok (.string s, rest)
    | '[' :: rest =>
      if depth ≤ 1 then failOn .tooDeep ('[' :: rest)
      else (itemsFrom fuel (depth - 1) true rest).andThen fun items rest => .ok (.array items, rest)
    | '{' :: rest =>
      if depth ≤ 1 then failOn .tooDeep ('{' :: rest)
      else
        (membersFrom fuel (depth - 1) true rest).andThen fun members rest =>
          .ok (.object members, rest)
    | c :: rest =>
      if c = '-' || isDigit c then
        (number (c :: rest)).andThen fun n rest => .ok (.number n, rest)
      else failOn .valueExpected (c :: rest)

/-- Read the items of a list up to its end; `first` before the first one. -/
def itemsFrom : Nat → Nat → Bool → List Char → Read (List Value)
  | 0, _, _, cs => failBehind .eofInList cs
  | fuel + 1, depth, first, cs =>
    match skipSpace cs with
    | [] => failOn .eofInList []
    | ']' :: rest => .ok ([], rest)
    | c :: rest =>
      if first then itemFrom fuel depth (c :: rest)
      else if c = ',' then
        match skipSpace rest with
        | [] => failOn .eofInValue []
        | ']' :: rest => failOn .trailingComma (']' :: rest)
        | rest => itemFrom fuel depth rest
      else failOn .listCommaOrEndExpected (c :: rest)

/-- Read one item and those behind it. -/
def itemFrom : Nat → Nat → List Char → Read (List Value)
  | 0, _, cs => failBehind .eofInList cs
  | fuel + 1, depth, cs =>
    (valueFrom fuel depth cs).andThen fun v rest =>
      (itemsFrom fuel depth false rest).andThen fun vs rest => .ok (v :: vs, rest)

/-- Read the members of an object up to its end; `first` before the first one. -/
def membersFrom : Nat → Nat → Bool → List Char → Read (List (String × Value))
  | 0, _, _, cs => failBehind .eofInObject cs
  | fuel + 1, depth, first, cs =>
    match skipSpace cs with
    | [] => failOn .eofInObject []
    | '}' :: rest => .ok ([], rest)
    | c :: rest =>
      if first then memberFrom fuel depth (c :: rest)
      else if c = ',' then
        match skipSpace rest with
        | [] => failOn .eofInValue []
        | '}' :: rest => failOn .trailingComma ('}' :: rest)
        | rest => memberFrom fuel depth rest
      else failOn .objectCommaOrEndExpected (c :: rest)

def memberFrom : Nat → Nat → List Char → Read (List (String × Value))
  | 0, _, cs => failBehind .eofInObject cs
  | fuel + 1, depth, cs =>
    match cs with
    | '"' :: rest =>
      (string rest).andThen fun name rest =>
        match skipSpace rest with
        | [] => failOn .eofInObject []
        | ':' :: rest =>
          (valueFrom fuel depth rest).andThen fun v rest =>
            (membersFrom fuel depth false rest).andThen fun ms rest => .ok ((name, v) :: ms, rest)
        | rest => failOn .colonExpected rest
    | _ => failOn .keyNotString cs

end

/-- Read a value.  At most three steps pass between one character and the next,
so the steps never run out. -/
def value (cs : List Char) : Read Value :=
  valueFrom (3 * cs.length + 3) depthLimit cs

mutual

/-- Skip a value with `fuel` steps left. -/
def skipValueFrom : Nat → List Char → Read Unit
  | 0, cs => failBehind .eofInValue cs
  | fuel + 1, cs =>
    match skipSpace cs with
    | [] => failOn .eofInValue []
    | 'n' :: rest => word ['u', 'l', 'l'] rest
    | 't' :: rest => word ['r', 'u', 'e'] rest
    | 'f' :: rest => word ['a', 'l', 's', 'e'] rest
    | '"' :: rest => skipString rest
    | '[' :: rest => skipItemsFrom fuel true rest
    | '{' :: rest => skipMembersFrom fuel true rest
    | c :: rest =>
      if c = '-' || isDigit c then skipNumber (c :: rest)
      else failOn .valueExpected (c :: rest)

def skipItemsFrom : Nat → Bool → List Char → Read Unit
  | 0, _, cs => failBehind .eofInList cs
  | fuel + 1, first, cs =>
    match skipSpace cs with
    | [] => failOn .eofInList []
    | ']' :: rest => .ok ((), rest)
    | c :: rest =>
      if first then skipItemFrom fuel (c :: rest)
      else if c = ',' then skipItemFrom fuel rest
      else failOn .listCommaOrEndExpected (c :: rest)

def skipItemFrom : Nat → List Char → Read Unit
  | 0, cs => failBehind .eofInList cs
  | fuel + 1, cs =>
    (skipValueFrom fuel cs).andThen fun _ rest => skipItemsFrom fuel false rest

def skipMembersFrom : Nat → Bool → List Char → Read Unit
  | 0, _, cs => failBehind .eofInObject cs
  | fuel + 1, first, cs =>
    match skipSpace cs with
    | [] => failOn .eofInObject []
    | '}' :: rest => .ok ((), rest)
    | c :: rest =>
      if first then skipMemberFrom fuel (c :: rest)
      else if c = ',' then skipMemberFrom fuel (skipSpace rest)
      else failOn .objectCommaOrEndExpected (c :: rest)

def skipMemberFrom : Nat → List Char → Read Unit
  | 0, cs => failBehind .eofInObject cs
  | fuel + 1, cs =>
    match cs with
    | [] => failOn .eofInObject []
    | '"' :: rest =>
      (skipString rest).andThen fun _ rest =>
        match skipSpace rest with
        | [] => failOn .eofInObject []
        | ':' :: rest =>
          (skipValueFrom fuel rest).andThen fun _ rest => skipMembersFrom fuel false rest
        | rest => failOn .colonExpected rest
    | _ => failOn .keyNotString cs

end

/-- Skip a value of any depth.  The steps never run out. -/
def skipValue (cs : List Char) : Read Unit :=
  skipValueFrom (3 * cs.length + 3) cs

/-- Only space is left. -/
def atEnd (cs : List Char) : Except Failure Unit :=
  match skipSpace cs with
  | [] => .ok ()
  | rest => failOn .trailingCharacters rest

end Lintmark.Json
